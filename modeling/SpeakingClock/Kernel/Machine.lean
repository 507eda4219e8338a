import SpeakingClock.Firmware
import SpeakingClock.Kernel.Queue

/-! The firmware on the queues of the kernel. `main` creates `time_request_sem` as a queue of one item
    without bytes, and `time_queue` as a queue of one item of three bytes. The tasks take the steps of
    `Firmware`, but what a give, a take, a send and a receive get is what the kernel's functions return. -/

namespace SpeakingClock.Kernel

/-- A `time_msg` in memory. -/
def msgBytes (m : TimeMsg) : Bytes := [m.hour, m.minute, m.second]

/-- What `&msg` points to. -/
def msgAt (m : TimeMsg) (i : Nat) : UInt8 := (msgBytes m).getD i 0

/-- The message of which these are the bytes. -/
def msgOf (bs : Bytes) : TimeMsg := ⟨bs.getD 0 0, bs.getD 1 0, bs.getD 2 0⟩

structure Machine where
  key : KeyTask
  ntp : NtpTask
  speech : SpeechTask
  timeRequestSem : Queue Writer
  timeQueue : Queue Writer
  uart : List (Writer × UInt8)
  history : List Event

/-- The tasks, with the semaphore and the queue as far as the next step learns of them. -/
def Machine.tasks (k : Machine) (sem : Bool) (queue : List TimeMsg) : State :=
  ⟨k.key, k.ntp, k.speech, sem, queue, k.uart, k.history⟩

/-- The machine with the tasks as in `s`. -/
def Machine.went (k : Machine) (s : State) : Machine :=
  { k with key := s.key, ntp := s.ntp, speech := s.speech, uart := s.uart, history := s.history }

def Machine.init (hw : HwInit) (msg : TimeMsg) (timeRequestSem timeQueue : Queue Writer) : Machine :=
  let s := State.init hw msg
  ⟨s.key, s.ntp, s.speech, timeRequestSem, timeQueue, s.uart, s.history⟩

/-- One step. -/
def Machine.step (k : Machine) (a : Action) : Option Machine :=
  match a with
  | .keyGive => do
    let s ← SpeakingClock.step (k.tasks false []) .keyGive
    -- `xSemaphoreGive` does not wait: when the semaphore is full, nothing happens.
    let sem := match k.timeRequestSem.trySend (fun _ => 0) .back with | some r => r.1 | none => k.timeRequestSem
    return { k.went s with timeRequestSem := sem }
  | .ntpTake => do
    let r ← k.timeRequestSem.trySemaphoreTake
    let s ← SpeakingClock.step (k.tasks true []) .ntpTake
    return { k.went s with timeRequestSem := r.1 }
  | .ntpSend => do
    let r ← k.timeQueue.trySend (msgAt k.ntp.msg) .back
    let s ← SpeakingClock.step (k.tasks false []) .ntpSend
    return { k.went s with timeQueue := r.1 }
  | .speechReceive => do
    let r ← k.timeQueue.tryReceive
    let s ← SpeakingClock.step (k.tasks false [msgOf r.1]) .speechReceive
    return { k.went s with timeQueue := r.2.1 }
  | a => (SpeakingClock.step (k.tasks false []) a).map k.went

end SpeakingClock.Kernel
