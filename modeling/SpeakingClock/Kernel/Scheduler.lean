import SpeakingClock.Kernel.Lists
import SpeakingClock.Lib.Turns

/-! `tasks.c`: the scheduler, over any implementation of the lists. What tasks and interrupts do to it comes in
    atomic steps: critical sections, and what a task does while it has the scheduler suspended. An undefined
    call of a list function and a `configASSERT` that fails give none. -/

namespace SpeakingClock.Kernel
open ListImpl
open Turns (TaskEvent)

def configMaxPriorities : Nat := 5

/-- The lists: those that hold a task by its state, and the lists of tasks that wait for the events `ε`. -/
inductive ListId (ε : Type) where
  | ready (uxPriority : Fin configMaxPriorities)
  | delayed1  -- `xDelayedTaskList1`
  | delayed2
  | pendingReady
  | suspended
  | event (e : ε)
  deriving DecidableEq

/-- The two list items of a task. -/
inductive Item (ι : Type) where
  | state (t : ι)
  | event (t : ι)
  deriving DecidableEq

def Item.owner {ι : Type} : Item ι → ι
  | .state t | .event t => t

/-- Where a task is between its critical sections, as far as the scheduler is concerned. -/
inductive Control where
  | running
  | locked  -- it called `vTaskSuspendAll`
  | blocked  -- after that, it left the ready list
  | resumed  -- it did not yield in `xTaskResumeAll`, and is about to
  deriving DecidableEq

/-- The variables of the scheduler, the members of the task control blocks, whether PendSV is pending, and what
    happened so far: a tick is counted in `xTickCount`, and `vTaskSwitchContext` chooses a task. -/
structure Sched (σ ι ε : Type) where
  lists : σ
  uxPriority : ι → Fin configMaxPriorities
  control : ι → Control
  pxCurrentTCB : ι
  pxDelayedTaskList : ListId ε
  pxOverflowDelayedTaskList : ListId ε
  xTickCount : UInt32
  uxTopReadyPriority : BitVec 32
  xPendedTicks : UInt32
  xYieldPending : Bool
  xNumOfOverflows : Int32
  xNextTaskUnblockTime : UInt32
  uxSchedulerSuspended : Nat
  pendSV : Bool
  history : List (TaskEvent ι)

def portRecordReadyPriority (uxPriority : Fin configMaxPriorities) (uxReadyPriorities : BitVec 32) : BitVec 32 :=
  uxReadyPriorities ||| 1#32 <<< uxPriority.val

def portResetReadyPriority (uxPriority : Fin configMaxPriorities) (uxReadyPriorities : BitVec 32) : BitVec 32 :=
  uxReadyPriorities &&& ~~~(1#32 <<< uxPriority.val)

def portGetHighestPriority (uxReadyPriorities : BitVec 32) : BitVec 32 := 31#32 - uxReadyPriorities.clz

namespace Sched
variable {σ ι ε : Type} [ListImpl σ (Item ι) (ListId ε)]

def log (s : Sched σ ι ε) (e : TaskEvent ι) : Sched σ ι ε := { s with history := s.history ++ [e] }

def prvAddTaskToReadyList (s : Sched σ ι ε) (t : ι) : Option (Sched σ ι ε) :=
  (vListInsertEnd s.lists (.ready (s.uxPriority t)) (.state t)).map fun lists =>
    { s with
      lists := lists
      uxTopReadyPriority := portRecordReadyPriority (s.uxPriority t) s.uxTopReadyPriority }

def prvResetNextTaskUnblockTime (s : Sched σ ι ε) : Option (Sched σ ι ε) :=
  if listCurrentListLength s.lists s.pxDelayedTaskList = 0 then some { s with xNextTaskUnblockTime := maxDelay }
  else
    (listGetHeadEntry s.lists s.pxDelayedTaskList).map fun i =>
      { s with xNextTaskUnblockTime := listGetListItemValue s.lists i }

def taskSwitchDelayedLists (s : Sched σ ι ε) : Option (Sched σ ι ε) :=
  -- configASSERT( ( listLIST_IS_EMPTY( pxDelayedTaskList ) ) )
  if listCurrentListLength s.lists s.pxDelayedTaskList = 0 then
    prvResetNextTaskUnblockTime
      { s with
        pxDelayedTaskList := s.pxOverflowDelayedTaskList
        pxOverflowDelayedTaskList := s.pxDelayedTaskList
        xNumOfOverflows := s.xNumOfOverflows + 1 }
  else none

/-- The item is taken from its list. -/
def listRemoveItem (s : Sched σ ι ε) (i : Item ι) : Option (Sched σ ι ε) :=
  (uxListRemove s.lists i).map fun r => { s with lists := r.2 }

def removeFromEvent (s : Sched σ ι ε) (t : ι) : Option (Sched σ ι ε) :=
  match listListItemContainer s.lists (.event t) with
  | some _ => s.listRemoveItem (.event t)
  | none => some s

/-- The loop of `xTaskIncrementTick`: the tasks at the head of the delayed list whose time has come. Returns
    whether a switch is required. -/
def unblockTasks : Nat → Sched σ ι ε → Bool → Option (Bool × Sched σ ι ε)
  | 0, _, _ => none
  | fuel + 1, s, xSwitchRequired =>
    if listCurrentListLength s.lists s.pxDelayedTaskList = 0 then
      some (xSwitchRequired, { s with xNextTaskUnblockTime := maxDelay })
    else
      (listGetHeadEntry s.lists s.pxDelayedTaskList).bind fun i =>
        let pxTCB := i.owner
        let xItemValue := listGetListItemValue s.lists (.state pxTCB)
        if s.xTickCount < xItemValue then some (xSwitchRequired, { s with xNextTaskUnblockTime := xItemValue })
        else
          (s.listRemoveItem (.state pxTCB)).bind fun s =>
          (s.removeFromEvent pxTCB).bind fun s =>
          ((s.log (.timedOut pxTCB)).prvAddTaskToReadyList pxTCB).bind fun s =>
          unblockTasks fuel s (xSwitchRequired || s.uxPriority s.pxCurrentTCB < s.uxPriority pxTCB)

def xTaskIncrementTick (s : Sched σ ι ε) : Option (Bool × Sched σ ι ε) :=
  if s.uxSchedulerSuspended = 0 then
    let s := { s with xTickCount := s.xTickCount + 1 }.log .tick
    (if s.xTickCount = 0 then s.taskSwitchDelayedLists else some s).bind fun s =>
    (if s.xNextTaskUnblockTime ≤ s.xTickCount then
      unblockTasks (listCurrentListLength s.lists s.pxDelayedTaskList + 1) s false
    else some (false, s)).map fun (xSwitchRequired, s) =>
    (xSwitchRequired || 1 < listCurrentListLength s.lists (.ready (s.uxPriority s.pxCurrentTCB)) || s.xYieldPending, s)
  else some (false, { s with xPendedTicks := s.xPendedTicks + 1 })

def vTaskSuspendAll (s : Sched σ ι ε) : Sched σ ι ε := { s with uxSchedulerSuspended := s.uxSchedulerSuspended + 1 }

/-- The loop of `xTaskResumeAll` over `xPendingReadyList`; returns whether there was a task in it. -/
def readyPending : Nat → Sched σ ι ε → Bool → Option (Bool × Sched σ ι ε)
  | 0, _, _ => none
  | fuel + 1, s, moved =>
    if listCurrentListLength s.lists .pendingReady = 0 then some (moved, s)
    else
      (listGetHeadEntry s.lists .pendingReady).bind fun i =>
        let pxTCB := i.owner
        (s.listRemoveItem (.event pxTCB)).bind fun s =>
        (s.listRemoveItem (.state pxTCB)).bind fun s =>
        ((s.log (.readied pxTCB)).prvAddTaskToReadyList pxTCB).bind fun s =>
        readyPending fuel
          { s with xYieldPending := s.uxPriority s.pxCurrentTCB < s.uxPriority pxTCB || s.xYieldPending } true

/-- The loop of `xTaskResumeAll` over the ticks that it owes. -/
def unwindTicks : Nat → Sched σ ι ε → Option (Sched σ ι ε)
  | 0, s => some s
  | xPendedCounts + 1, s =>
    s.xTaskIncrementTick.bind fun (xSwitchRequired, s) =>
    unwindTicks xPendedCounts { s with xYieldPending := xSwitchRequired || s.xYieldPending }

/-- Returns whether it yielded. -/
def xTaskResumeAll (s : Sched σ ι ε) : Option (Bool × Sched σ ι ε) :=
  -- configASSERT( uxSchedulerSuspended != 0U )
  if s.uxSchedulerSuspended = 0 then none
  else
    let s := { s with uxSchedulerSuspended := s.uxSchedulerSuspended - 1 }
    if s.uxSchedulerSuspended = 0 then
      (readyPending (listCurrentListLength s.lists .pendingReady + 1) s false).bind fun (moved, s) =>
      (if moved then s.prvResetNextTaskUnblockTime else some s).bind fun s =>
      (unwindTicks s.xPendedTicks.toNat s).map fun s =>
      let s := { s with xPendedTicks := 0 }
      if s.xYieldPending then (true, { s with pendSV := true }) else (false, s)
    else some (false, s)

/-- The running task leaves its ready list. -/
def leaveReadyList (s : Sched σ ι ε) : Option (Sched σ ι ε) :=
  (uxListRemove s.lists (Item.state s.pxCurrentTCB)).map fun (uxNumberOfItems, lists) =>
    { s with
      lists := lists
      uxTopReadyPriority :=
        if uxNumberOfItems = 0 then portResetReadyPriority (s.uxPriority s.pxCurrentTCB) s.uxTopReadyPriority
        else s.uxTopReadyPriority }

/-- It waits until it is woken. -/
def insertSuspended (s : Sched σ ι ε) : Option (Sched σ ι ε) :=
  (vListInsertEnd s.lists .suspended (Item.state s.pxCurrentTCB)).map fun lists => { s with lists := lists }

/-- It waits until `xTimeToWake` at most. -/
def insertDelayed (s : Sched σ ι ε) (xTimeToWake : UInt32) : Option (Sched σ ι ε) :=
  let lists := listSetListItemValue s.lists (Item.state s.pxCurrentTCB) xTimeToWake
  if xTimeToWake < s.xTickCount then
    (vListInsert lists s.pxOverflowDelayedTaskList (Item.state s.pxCurrentTCB)).map fun lists => { s with lists := lists }
  else
    (vListInsert lists s.pxDelayedTaskList (Item.state s.pxCurrentTCB)).map fun lists =>
      { s with
        lists := lists
        xNextTaskUnblockTime := if xTimeToWake < s.xNextTaskUnblockTime then xTimeToWake else s.xNextTaskUnblockTime }

def prvAddCurrentTaskToDelayedList (s : Sched σ ι ε) (xTicksToWait : UInt32) (xCanBlockIndefinitely : Bool) :
    Option (Sched σ ι ε) :=
  s.leaveReadyList.bind fun s =>
  if xTicksToWait = maxDelay ∧ xCanBlockIndefinitely then (s.log (.blocked s.pxCurrentTCB none)).insertSuspended
  else (s.log (.blocked s.pxCurrentTCB (some xTicksToWait.toNat))).insertDelayed (s.xTickCount + xTicksToWait)

def vTaskPlaceOnEventList (s : Sched σ ι ε) (e : ε) (xTicksToWait : UInt32) : Option (Sched σ ι ε) :=
  (vListInsert s.lists (.event e) (.event s.pxCurrentTCB)).bind fun lists =>
  { s with lists := lists }.prvAddCurrentTaskToDelayedList xTicksToWait true

def vTaskPlaceOnEventListRestricted (s : Sched σ ι ε) (e : ε) (xTicksToWait : UInt32) (xWaitIndefinitely : Bool) :
    Option (Sched σ ι ε) :=
  (vListInsertEnd s.lists (.event e) (.event s.pxCurrentTCB)).bind fun lists =>
  { s with lists := lists }.prvAddCurrentTaskToDelayedList (if xWaitIndefinitely then maxDelay else xTicksToWait)
    xWaitIndefinitely

/-- Returns whether the task has a higher priority than the one that runs. -/
def xTaskRemoveFromEventList (s : Sched σ ι ε) (e : ε) : Option (Bool × Sched σ ι ε) :=
  (listGetHeadEntry s.lists (.event e)).bind fun i =>
  let pxUnblockedTCB := i.owner
  (s.listRemoveItem (.event pxUnblockedTCB)).bind fun s =>
  (if s.uxSchedulerSuspended = 0 then
    (s.listRemoveItem (.state pxUnblockedTCB)).bind fun s =>
    (s.log (.readied pxUnblockedTCB)).prvAddTaskToReadyList pxUnblockedTCB
  else
    (vListInsertEnd s.lists .pendingReady (.event pxUnblockedTCB)).map fun lists => { s with lists := lists }).map fun s =>
  if s.uxPriority s.pxCurrentTCB < s.uxPriority pxUnblockedTCB then (true, { s with xYieldPending := true })
  else (false, s)

def taskSelectHighestPriorityTask (s : Sched σ ι ε) : Option (Sched σ ι ε) :=
  if h : (portGetHighestPriority s.uxTopReadyPriority).toNat < configMaxPriorities then
    -- configASSERT( listCURRENT_LIST_LENGTH( &( pxReadyTasksLists[ uxTopPriority ] ) ) > 0 )
    if listCurrentListLength s.lists (.ready ⟨_, h⟩) = 0 then none
    else
      (listGetNextEntry s.lists (.ready ⟨_, h⟩)).map fun (i, lists) =>
        { s with lists := lists, pxCurrentTCB := i.owner }.log (.chosen i.owner)
  else none

def vTaskSwitchContext (s : Sched σ ι ε) : Option (Sched σ ι ε) :=
  if s.uxSchedulerSuspended ≠ 0 then some { s with xYieldPending := true }
  else { s with xYieldPending := false }.taskSelectHighestPriorityTask

end Sched

/-- What tasks and interrupts do. -/
inductive SchedAction (ε : Type) where
  | tick  -- the SysTick interrupt
  | pendSV  -- the PendSV interrupt
  /-- An interrupt wakes a task; it may yield or leave that to `xYieldPending`. -/
  | wakeFromISR (e : ε) (portYieldFromISR : Bool)
  -- the running task
  | wake (e : ε)
  | suspendAll
  | delay (xTicksToDelay : UInt32)
  | place (e : ε) (xTicksToWait : UInt32)
  | placeRestricted (e : ε) (xTicksToWait : UInt32) (xWaitIndefinitely : Bool)
  | resumeAll
  | yield

namespace Sched
variable {σ ι ε : Type} [DecidableEq ι]

/-- The running task goes on. -/
def goto (s : Sched σ ι ε) (c : Control) : Sched σ ι ε :=
  { s with control := Function.update s.control s.pxCurrentTCB c }

variable [ListImpl σ (Item ι) (ListId ε)]

def step (s : Sched σ ι ε) : SchedAction ε → Option (Sched σ ι ε)
  | .tick =>
    (s.log .sysTick).xTaskIncrementTick.map fun (xSwitchRequired, s) =>
      { s with pendSV := xSwitchRequired || s.pendSV }
  | .pendSV => { s with pendSV := false }.vTaskSwitchContext
  | .wakeFromISR e portYieldFromISR =>
    (s.xTaskRemoveFromEventList e).map fun (woken, s) => { s with pendSV := woken && portYieldFromISR || s.pendSV }
  | .wake e =>
    (s.xTaskRemoveFromEventList e).map fun (woken, s) =>
      if s.uxSchedulerSuspended = 0 then { s with pendSV := woken || s.pendSV }
      -- `prvUnlockQueue`: `vTaskMissedYield`
      else { s with xYieldPending := woken || s.xYieldPending }
  | .suspendAll => some (s.vTaskSuspendAll.goto .locked)
  | .delay xTicksToDelay => (s.prvAddCurrentTaskToDelayedList xTicksToDelay false).map (·.goto .blocked)
  | .place e xTicksToWait => (s.vTaskPlaceOnEventList e xTicksToWait).map (·.goto .blocked)
  | .placeRestricted e xTicksToWait xWaitIndefinitely =>
    (s.vTaskPlaceOnEventListRestricted e xTicksToWait xWaitIndefinitely).map (·.goto .blocked)
  | .resumeAll =>
    s.xTaskResumeAll.map fun (xAlreadyYielded, t) =>
      t.goto (if s.control s.pxCurrentTCB = .blocked ∧ ¬xAlreadyYielded then .resumed else .running)
  | .yield => some ({ s with pendSV := true }.goto .running)

/-- What can happen: PendSV is taken before the task goes on, which does what its callers let it do. Interrupts
    and `prvUnlockQueue` look whether a task waits before they wake it; a task that does not block indefinitely
    waits for a tick at least; the idle task does not block; not as many ticks pass as can be counted while
    the scheduler is suspended. -/
def Allows (idle : ι) (s : Sched σ ι ε) : SchedAction ε → Prop
  | .tick => s.xPendedTicks ≠ maxDelay
  | .pendSV => s.pendSV
  | .wakeFromISR e _ => listCurrentListLength s.lists (.event e) ≠ 0
  | .wake e => ¬s.pendSV ∧ s.control s.pxCurrentTCB ≠ .resumed ∧ listCurrentListLength s.lists (.event e) ≠ 0
  | .suspendAll => ¬s.pendSV ∧ s.control s.pxCurrentTCB = .running
  | .delay xTicksToWait | .place _ xTicksToWait =>
    ¬s.pendSV ∧ s.control s.pxCurrentTCB = .locked ∧ s.pxCurrentTCB ≠ idle ∧ xTicksToWait ≠ 0
  | .placeRestricted _ xTicksToWait xWaitIndefinitely =>
    ¬s.pendSV ∧ s.control s.pxCurrentTCB = .locked ∧ s.pxCurrentTCB ≠ idle ∧ (xTicksToWait ≠ 0 ∨ xWaitIndefinitely)
  | .resumeAll => ¬s.pendSV ∧ (s.control s.pxCurrentTCB = .locked ∨ s.control s.pxCurrentTCB = .blocked)
  | .yield => ¬s.pendSV ∧ (s.control s.pxCurrentTCB = .running ∨ s.control s.pxCurrentTCB = .resumed)

instance (idle : ι) (s : Sched σ ι ε) : (a : SchedAction ε) → Decidable (Allows idle s a)
  | .tick => inferInstanceAs (Decidable (s.xPendedTicks ≠ maxDelay))
  | .pendSV => inferInstanceAs (Decidable (s.pendSV = true))
  | .wakeFromISR e _ => inferInstanceAs (Decidable (listCurrentListLength s.lists (.event e) ≠ 0))
  | .wake _ | .suspendAll | .delay _ | .place _ _ | .resumeAll | .yield => inferInstanceAs (Decidable (_ ∧ _))
  | .placeRestricted _ _ _ => inferInstanceAs (Decidable (_ ∧ _))

/-- Before a task is created. -/
def init (lists : σ) (uxPriority : ι → Fin configMaxPriorities) (t : ι) : Sched σ ι ε where
  lists := lists
  uxPriority := uxPriority
  control _ := .running
  pxCurrentTCB := t
  pxDelayedTaskList := .delayed1
  pxOverflowDelayedTaskList := .delayed2
  xTickCount := 0
  uxTopReadyPriority := 0
  xPendedTicks := 0
  xYieldPending := false
  xNumOfOverflows := 0
  xNextTaskUnblockTime := maxDelay
  uxSchedulerSuspended := 0
  pendSV := false
  history := []

/-- Before the scheduler runs, the task of the highest priority that was created last will be the first. -/
def prvAddNewTaskToReadyList (s : Sched σ ι ε) (t : ι) : Option (Sched σ ι ε) :=
  { s with
    pxCurrentTCB := if s.uxPriority s.pxCurrentTCB ≤ s.uxPriority t then t else s.pxCurrentTCB }.prvAddTaskToReadyList t

/-- The scheduler starts with the tasks `t` and `ts`, in the order in which they were created. -/
def start (lists : σ) (uxPriority : ι → Fin configMaxPriorities) (t : ι) (ts : List ι) : Option (Sched σ ι ε) :=
  (t :: ts).foldlM prvAddNewTaskToReadyList (init lists uxPriority t)

end Sched

end SpeakingClock.Kernel
