import SpeakingClock.Basic
import SpeakingClock.Lib.Ring

/-! FreeRTOS queues and semaphores (`freertos/queue.c`). The storage area is a ring of slots that
    `pcWriteTo` and `pcReadFrom` point into; a semaphore is a queue whose items have no bytes. What a
    function does inside one critical section is one function here; the loops around them, which block
    and time out, are in `Kernel.Blocking`. Mutexes and queue sets are not used by the firmware.

    A failed `configASSERT` stops the program: there a function has no result. -/

namespace SpeakingClock.Kernel
open Memory

def sizeMax : Nat := 2 ^ 32 - 1

/-- `sizeof( Queue_t )`. -/
def sizeofQueue : Nat := 72

def queueUnlocked : Int := -1

def queueLockedUnmodified : Int := 0

def queueInt8Max : Int := 127

/-- `Queue_t`, with the tasks on its two event lists, and the memory that its storage area lies in. -/
structure Queue (T : Type) where
  pcHead : Int
  pcWriteTo : Int
  pcTail : Int
  pcReadFrom : Int
  xTasksWaitingToSend : List T
  xTasksWaitingToReceive : List T
  uxMessagesWaiting : Nat
  uxLength : Nat
  uxItemSize : Nat
  cRxLock : Int
  cTxLock : Int
  mem : Int → UInt8

/-- `xCopyPosition`. -/
inductive Position where
  | back
  | front
  | overwrite
  deriving DecidableEq, Repr

section
variable {T : Type}

/-- The item that `memcpy` copies from where `pvItemToQueue` points. -/
def copied (pvItemToQueue : Nat → UInt8) (uxItemSize : Nat) : Bytes := (List.range uxItemSize).map pvItemToQueue

/-- `xTaskRemoveFromEventList` on the tasks that wait to receive, if there are any. -/
def Queue.wakeReceiver (q : Queue T) : Queue T × Option T :=
  ({ q with xTasksWaitingToReceive := q.xTasksWaitingToReceive.tail }, q.xTasksWaitingToReceive.head?)

/-- The same on the tasks that wait to send. -/
def Queue.wakeSender (q : Queue T) : Queue T × Option T :=
  ({ q with xTasksWaitingToSend := q.xTasksWaitingToSend.tail }, q.xTasksWaitingToSend.head?)

/-! ### Creation -/

/-- `xQueueGenericReset`: whether it passes, the queue, and the task it wakes. -/
def xQueueGenericReset (q : Queue T) (xNewQueue : Bool) : Bool × Queue T × Option T :=
  if 1 ≤ q.uxLength ∧ q.uxItemSize ≤ sizeMax / q.uxLength then
    let q := { q with
      pcTail := q.pcHead + (q.uxLength * q.uxItemSize : Nat)
      uxMessagesWaiting := 0
      pcWriteTo := q.pcHead
      pcReadFrom := q.pcHead + ((q.uxLength - 1) * q.uxItemSize : Nat)
      cRxLock := queueUnlocked
      cTxLock := queueUnlocked }
    if xNewQueue then (true, { q with xTasksWaitingToSend := [], xTasksWaitingToReceive := [] }, none)
    else (true, q.wakeSender)
  else (false, q, none)

def prvInitialiseNewQueue (uxQueueLength uxItemSize : Nat) (pucQueueStorage pxNewQueue : Int) (mem : Int → UInt8) :
    Queue T :=
  let q : Queue T := {
    -- A queue without storage points to itself.
    pcHead := if uxItemSize = 0 then pxNewQueue else pucQueueStorage
    pcWriteTo := 0
    pcTail := 0
    pcReadFrom := 0
    xTasksWaitingToSend := []
    xTasksWaitingToReceive := []
    uxMessagesWaiting := 0
    uxLength := uxQueueLength
    uxItemSize := uxItemSize
    cRxLock := 0
    cTxLock := 0
    mem := mem }
  (xQueueGenericReset q true).2.1

/-- `xQueueGenericCreate`, where `pvPortMalloc` returns `pxNewQueue`. -/
def xQueueGenericCreate (uxQueueLength uxItemSize : Nat) (pxNewQueue : Option Int) (mem : Int → UInt8) :
    Option (Queue T) :=
  if 0 < uxQueueLength ∧ uxItemSize ≤ sizeMax / uxQueueLength ∧
      uxQueueLength * uxItemSize ≤ sizeMax - sizeofQueue then
    pxNewQueue.map fun p => prvInitialiseNewQueue uxQueueLength uxItemSize (p + sizeofQueue) p mem
  else none

/-! ### Copying -/

def prvCopyDataToQueue (q : Queue T) (pvItemToQueue : Nat → UInt8) (xPosition : Position) : Queue T :=
  if q.uxItemSize = 0 then { q with uxMessagesWaiting := q.uxMessagesWaiting + 1 }
  else if xPosition = .back then
    let mem := store q.mem q.pcWriteTo (copied pvItemToQueue q.uxItemSize)
    let pcWriteTo := q.pcWriteTo + q.uxItemSize
    { q with
      mem := mem
      pcWriteTo := if pcWriteTo ≥ q.pcTail then q.pcHead else pcWriteTo
      uxMessagesWaiting := q.uxMessagesWaiting + 1 }
  else
    let mem := store q.mem q.pcReadFrom (copied pvItemToQueue q.uxItemSize)
    let pcReadFrom := q.pcReadFrom - q.uxItemSize
    -- An overwritten item is not counted twice.
    let uxMessagesWaiting :=
      if xPosition = .overwrite ∧ q.uxMessagesWaiting > 0 then q.uxMessagesWaiting - 1 else q.uxMessagesWaiting
    { q with
      mem := mem
      pcReadFrom := if pcReadFrom < q.pcHead then q.pcTail - q.uxItemSize else pcReadFrom
      uxMessagesWaiting := uxMessagesWaiting + 1 }

/-- `prvCopyDataFromQueue`: the bytes that it copies to `pvBuffer`. -/
def prvCopyDataFromQueue (q : Queue T) : Bytes × Queue T :=
  if q.uxItemSize ≠ 0 then
    let pcReadFrom := q.pcReadFrom + q.uxItemSize
    let pcReadFrom := if pcReadFrom ≥ q.pcTail then q.pcHead else pcReadFrom
    (load q.mem pcReadFrom q.uxItemSize, { q with pcReadFrom := pcReadFrom })
  else ([], q)

def prvIsQueueEmpty (q : Queue T) : Bool := q.uxMessagesWaiting = 0

def prvIsQueueFull (q : Queue T) : Bool := q.uxMessagesWaiting = q.uxLength

def uxQueueMessagesWaiting (q : Queue T) : Nat := q.uxMessagesWaiting

def uxQueueSpacesAvailable (q : Queue T) : Nat := q.uxLength - q.uxMessagesWaiting

/-! ### The critical sections of the task-level functions -/

/-- The first one of `xQueueGenericSend`: the queue and the task it wakes, or none when the queue is
    full. -/
def Queue.trySend (q : Queue T) (pvItemToQueue : Nat → UInt8) (xCopyPosition : Position) :
    Option (Queue T × Option T) :=
  if q.uxMessagesWaiting < q.uxLength ∨ xCopyPosition = .overwrite then
    some (prvCopyDataToQueue q pvItemToQueue xCopyPosition).wakeReceiver
  else none

/-- That of `xQueueReceive`: the item, the queue, and the task it wakes. -/
def Queue.tryReceive (q : Queue T) : Option (Bytes × Queue T × Option T) :=
  if q.uxMessagesWaiting > 0 then
    let (item, q') := prvCopyDataFromQueue q
    some (item, { q' with uxMessagesWaiting := q.uxMessagesWaiting - 1 }.wakeSender)
  else none

/-- That of `xQueueSemaphoreTake`. -/
def Queue.trySemaphoreTake (q : Queue T) : Option (Queue T × Option T) :=
  if q.uxMessagesWaiting > 0 then
    some { q with uxMessagesWaiting := q.uxMessagesWaiting - 1 }.wakeSender
  else none

/-- That of `xQueuePeek`. The item stays, so the next task that waits for one is woken. -/
def Queue.tryPeek (q : Queue T) : Option (Bytes × Queue T × Option T) :=
  if q.uxMessagesWaiting > 0 then
    let pcOriginalReadPosition := q.pcReadFrom
    let (item, q') := prvCopyDataFromQueue q
    some (item, { q' with pcReadFrom := pcOriginalReadPosition }.wakeReceiver)
  else none

/-! ### Locking -/

/-- The new lock count when an interrupt uses a locked queue. -/
def incrementLock (uxNumberOfTasks : Nat) (lock : Int) : Option Int :=
  if lock < uxNumberOfTasks then
    if lock = queueInt8Max then none else some (lock + 1)
  else some lock

def prvIncrementQueueTxLock (uxNumberOfTasks : Nat) (q : Queue T) : Option (Queue T) :=
  (incrementLock uxNumberOfTasks q.cTxLock).map fun lock => { q with cTxLock := lock }

def prvIncrementQueueRxLock (uxNumberOfTasks : Nat) (q : Queue T) : Option (Queue T) :=
  (incrementLock uxNumberOfTasks q.cRxLock).map fun lock => { q with cRxLock := lock }

def prvLockQueue (q : Queue T) : Queue T :=
  { q with
    cRxLock := if q.cRxLock = queueUnlocked then queueLockedUnmodified else q.cRxLock
    cTxLock := if q.cTxLock = queueUnlocked then queueLockedUnmodified else q.cTxLock }

/-- A loop of `prvUnlockQueue`, with the lock count and the event list: the tasks it wakes, and the event
    list after it. -/
def unlockLoop : Nat → List T → List T × List T
  | lock + 1, t :: waiting =>
    let (woken, waiting) := unlockLoop lock waiting
    (t :: woken, waiting)
  | _, waiting => ([], waiting)

/-- The first critical section of `prvUnlockQueue`: as many tasks that wait to receive are woken as items
    came in while the queue was locked. -/
def Queue.unlockTx (q : Queue T) : Queue T × List T :=
  let (woken, waiting) := unlockLoop q.cTxLock.toNat q.xTasksWaitingToReceive
  ({ q with xTasksWaitingToReceive := waiting, cTxLock := queueUnlocked }, woken)

/-- The second one, for the tasks that wait to send. -/
def Queue.unlockRx (q : Queue T) : Queue T × List T :=
  let (woken, waiting) := unlockLoop q.cRxLock.toNat q.xTasksWaitingToSend
  ({ q with xTasksWaitingToSend := waiting, cRxLock := queueUnlocked }, woken)

/-! ### Functions for interrupts -/

/-- What an interrupt that added an item does about the tasks that wait for one. -/
def Queue.posted (uxNumberOfTasks : Nat) (q : Queue T) : Option (Queue T × Option T) :=
  if q.cTxLock = queueUnlocked then some q.wakeReceiver
  else (prvIncrementQueueTxLock uxNumberOfTasks q).map (·, none)

def xQueueGenericSendFromISR (uxNumberOfTasks : Nat) (q : Queue T) (pvItemToQueue : Nat → UInt8)
    (xCopyPosition : Position) : Option (Bool × Queue T × Option T) :=
  if q.uxMessagesWaiting < q.uxLength ∨ xCopyPosition = .overwrite then
    ((prvCopyDataToQueue q pvItemToQueue xCopyPosition).posted uxNumberOfTasks).map (true, ·)
  else some (false, q, none)

def xQueueGiveFromISR (uxNumberOfTasks : Nat) (q : Queue T) : Option (Bool × Queue T × Option T) :=
  if q.uxMessagesWaiting < q.uxLength then
    ({ q with uxMessagesWaiting := q.uxMessagesWaiting + 1 }.posted uxNumberOfTasks).map (true, ·)
  else some (false, q, none)

def xQueueReceiveFromISR (uxNumberOfTasks : Nat) (q : Queue T) : Option (Option Bytes × Queue T × Option T) :=
  if q.uxMessagesWaiting > 0 then
    let (item, q') := prvCopyDataFromQueue q
    let q' := { q' with uxMessagesWaiting := q.uxMessagesWaiting - 1 }
    if q.cRxLock = queueUnlocked then some (some item, q'.wakeSender)
    else (prvIncrementQueueRxLock uxNumberOfTasks q').map (some item, ·, none)
  else some (none, q, none)

def xQueuePeekFromISR (q : Queue T) : Option Bytes × Queue T :=
  if q.uxMessagesWaiting > 0 then
    let pcOriginalReadPosition := q.pcReadFrom
    let (item, q') := prvCopyDataFromQueue q
    (some item, { q' with pcReadFrom := pcOriginalReadPosition })
  else (none, q)

/-! ### Calls -/

/-- A call that does not block, or an interrupt. -/
inductive Op where
  | send (pvItemToQueue : Nat → UInt8) (xCopyPosition : Position)
  | receive
  | semaphoreTake
  | peek
  | reset
  | lock
  | unlock
  | sendFromISR (pvItemToQueue : Nat → UInt8) (xCopyPosition : Position)
  | giveFromISR
  | receiveFromISR
  | peekFromISR
  | messagesWaiting
  | spacesAvailable

inductive Result where
  | pass
  | fail
  | item (x : Bytes)
  | count (n : Nat)
  deriving DecidableEq, Repr

def Result.ofBool (b : Bool) : Result := if b then .pass else .fail

def Result.ofItem : Option Bytes → Result
  | some x => .item x
  | none => .fail

/-- A call on a queue, with the assertions at its start taken to hold. -/
def Queue.op (uxNumberOfTasks : Nat) (q : Queue T) : Op → Option (Queue T × Result)
  | .send src pos => some (match q.trySend src pos with | some r => (r.1, .pass) | none => (q, .fail))
  | .receive => some (match q.tryReceive with | some r => (r.2.1, .item r.1) | none => (q, .fail))
  | .semaphoreTake => some (match q.trySemaphoreTake with | some r => (r.1, .pass) | none => (q, .fail))
  | .peek => some (match q.tryPeek with | some r => (r.2.1, .item r.1) | none => (q, .fail))
  | .reset => some ((xQueueGenericReset q false).2.1, .ofBool (xQueueGenericReset q false).1)
  | .lock => some (prvLockQueue q, .pass)
  | .unlock => some (q.unlockTx.1.unlockRx.1, .pass)
  | .sendFromISR src pos => (xQueueGenericSendFromISR uxNumberOfTasks q src pos).map fun r => (r.2.1, .ofBool r.1)
  | .giveFromISR => (xQueueGiveFromISR uxNumberOfTasks q).map fun r => (r.2.1, .ofBool r.1)
  | .receiveFromISR => (xQueueReceiveFromISR uxNumberOfTasks q).map fun r => (r.2.1, .ofItem r.1)
  | .peekFromISR => some ((xQueuePeekFromISR q).2, .ofItem (xQueuePeekFromISR q).1)
  | .messagesWaiting => some (q, .count (uxQueueMessagesWaiting q))
  | .spacesAvailable => some (q, .count (uxQueueSpacesAvailable q))

/-- The assertions of the functions: only a queue of length 1 is overwritten, only a queue without bytes is
    given and taken as a semaphore, and it is not peeked by an interrupt. A semaphore is not overwritten either,
    which nothing asserts: its count would go up. -/
def Op.Allowed (n size : Nat) : Op → Prop
  | .send _ pos | .sendFromISR _ pos => pos = .overwrite → n = 1 ∧ size ≠ 0
  | .semaphoreTake | .giveFromISR => size = 0
  | .peekFromISR => size ≠ 0
  | _ => True

end

end SpeakingClock.Kernel
