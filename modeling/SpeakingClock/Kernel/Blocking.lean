import SpeakingClock.Kernel.Queue
import Mathlib.Data.List.Sort

/-! The loops of `xQueueGenericSend`, `xQueueReceive`, `xQueuePeek` and `xQueueSemaphoreTake`: tasks that
    block on one queue, and interrupts that use it. Each critical section is one step, and between the
    steps of a task anything may happen that the scheduler allows: any other task may run unless the
    scheduler is suspended, and an interrupt may come at any time. How much time has passed when a task
    checks for a timeout is part of the step. -/

namespace SpeakingClock.Kernel

def portMaxDelay : Nat := 2 ^ 32 - 1

/-- A call that can block. -/
inductive Call where
  | send (pvItemToQueue : Nat → UInt8) (xCopyPosition : Position)
  | receive
  | peek
  | semaphoreTake

def Call.op : Call → Op
  | .send src pos => .send src pos
  | .receive => .receive
  | .peek => .peek
  | .semaphoreTake => .semaphoreTake

def Call.sends : Call → Bool
  | .send .. => true
  | _ => false

/-- Where a call goes on when the scheduler is resumed. -/
inductive Next where
  | wait
  | retry
  | timedOut
  deriving DecidableEq, Repr

/-- Where a task is, and the value of its `xTicksToWait`. -/
inductive Pc where
  | out  -- in no call
  | top (c : Call) (xTicksToWait : Nat)  -- at the critical section at the head of the loop
  | suspend (c : Call) (xTicksToWait : Nat)  -- at `vTaskSuspendAll`
  | lock (c : Call) (xTicksToWait : Nat)  -- at `prvLockQueue`
  | check (c : Call) (xTicksToWait : Nat)  -- at `xTaskCheckForTimeOut`
  | test (c : Call) (xTicksToWait : Nat)  -- at `prvIsQueueFull` or `prvIsQueueEmpty`
  | place (c : Call) (xTicksToWait : Nat)  -- at `vTaskPlaceOnEventList`
  | unlockTx (c : Call) (xTicksToWait : Nat) (next : Next)  -- at `prvUnlockQueue`
  | unlockRx (c : Call) (xTicksToWait : Nat) (next : Next)  -- between its two critical sections
  | resume (c : Call) (xTicksToWait : Nat) (next : Next)  -- at `xTaskResumeAll`
  | waiting (c : Call) (xTicksToWait : Nat)  -- after that, when it was placed on the event list
  | retest (c : Call) (xTicksToWait : Nat)  -- at `prvIsQueueEmpty` after a timeout

/-- The queue, where each task is, the task that suspended the scheduler, and what the calls and
    interrupts did at the queue. -/
structure Sys (T : Type) where
  queue : Queue T
  pc : T → Pc
  suspended : Option T
  history : List (Op × Result)

inductive Act (T : Type) where
  | call (t : T) (c : Call) (xTicksToWait : Nat)
  /-- The task goes on; `xElapsedTime` is what it finds at `xTaskCheckForTimeOut`. -/
  | run (t : T) (xElapsedTime : Nat)
  | tick (t : T)  -- `xTaskIncrementTick` ends the wait of a task
  | interrupt (o : Op)

/-- The calls that an interrupt may make. -/
def Op.FromISR : Op → Bool
  | .sendFromISR .. | .giveFromISR | .receiveFromISR | .peekFromISR => true
  | _ => false

section
variable {T : Type} [DecidableEq T] [Fintype T]

/-- No task is in a call. -/
def Sys.init (q : Queue T) : Sys T := ⟨q, fun _ => .out, none, []⟩

def Sys.goto (s : Sys T) (t : T) (pc : Pc) : Sys T := { s with pc := Function.update s.pc t pc }

/-- A call at the queue, which is noted. -/
def Sys.use (s : Sys T) (o : Op) : Option (Sys T × Result) :=
  (s.queue.op (Fintype.card T) o).map fun r => ({ s with queue := r.1, history := s.history ++ [(o, r.2)] }, r.2)

/-- `vTaskPlaceOnEventList`: in the order of the priorities, after the tasks of the same one. -/
def Sys.placeOnEventList (s : Sys T) (uxPriority : T → Nat) (t : T) (sends : Bool) : Sys T :=
  let place := List.orderedInsert (fun t u => uxPriority u < uxPriority t) t
  { s with queue :=
      if sends then { s.queue with xTasksWaitingToSend := place s.queue.xTasksWaitingToSend }
      else { s.queue with xTasksWaitingToReceive := place s.queue.xTasksWaitingToReceive } }

def Sys.waits (s : Sys T) (t : T) : Bool :=
  t ∈ s.queue.xTasksWaitingToSend ∨ t ∈ s.queue.xTasksWaitingToReceive

/-- The next step of a task. -/
def Sys.run (uxPriority : T → Nat) (s : Sys T) (t : T) (xElapsedTime : Nat) : Option (Sys T) :=
  match s.pc t with
  | .out => none
  | .top c xTicksToWait =>
    (s.use c.op).map fun (s, r) => s.goto t (if r = .fail ∧ xTicksToWait ≠ 0 then .suspend c xTicksToWait else .out)
  | .suspend c xTicksToWait => some { s.goto t (.lock c xTicksToWait) with suspended := some t }
  | .lock c xTicksToWait => some { s.goto t (.check c xTicksToWait) with queue := prvLockQueue s.queue }
  | .check c xTicksToWait =>
    some (s.goto t (
      if xTicksToWait = portMaxDelay then .test c xTicksToWait
      else if xElapsedTime < xTicksToWait then .test c (xTicksToWait - xElapsedTime)
      else .unlockTx c 0 .timedOut))
  | .test c xTicksToWait =>
    some (s.goto t (
      if bif c.sends then prvIsQueueFull s.queue else prvIsQueueEmpty s.queue then .place c xTicksToWait
      else .unlockTx c xTicksToWait .retry))
  | .place c xTicksToWait => some ((s.placeOnEventList uxPriority t c.sends).goto t (.unlockTx c xTicksToWait .wait))
  | .unlockTx c xTicksToWait next =>
    some { s.goto t (.unlockRx c xTicksToWait next) with queue := s.queue.unlockTx.1 }
  | .unlockRx c xTicksToWait next =>
    some { s.goto t (.resume c xTicksToWait next) with queue := s.queue.unlockRx.1 }
  | .resume c xTicksToWait next =>
    some { s.goto t (
      match next with
      | .wait => .waiting c xTicksToWait
      | .retry => .top c xTicksToWait
      -- `xQueueGenericSend` returns `errQUEUE_FULL` without another look at the queue.
      | .timedOut => if c.sends then .out else .retest c xTicksToWait) with suspended := none }
  | .waiting c xTicksToWait => if s.waits t then none else some (s.goto t (.top c xTicksToWait))
  | .retest c xTicksToWait => some (s.goto t (if prvIsQueueEmpty s.queue then .out else .top c xTicksToWait))

/-- Whether the wait of a task has an end. -/
def Pc.timed : Pc → Bool
  | .waiting _ xTicksToWait => xTicksToWait ≠ portMaxDelay
  | _ => false

def Sys.step (uxPriority : T → Nat) (s : Sys T) : Act T → Option (Sys T)
  | .call t c xTicksToWait =>
    match s.pc t, s.suspended with
    | .out, none => some (s.goto t (.top c xTicksToWait))
    | _, _ => none
  | .run t xElapsedTime =>
    if s.suspended = none ∨ s.suspended = some t then s.run uxPriority t xElapsedTime else none
  | .tick t =>
    if s.suspended = none ∧ s.waits t ∧ (s.pc t).timed then
      some { s with queue := { s.queue with
        xTasksWaitingToSend := s.queue.xTasksWaitingToSend.erase t
        xTasksWaitingToReceive := s.queue.xTasksWaitingToReceive.erase t } }
    else none
  | .interrupt o => if o.FromISR then (s.use o).map (·.1) else none

end

end SpeakingClock.Kernel
