import SpeakingClock.Kernel.Machine
import SpeakingClock.Lib.Run
import SpeakingClock.Theorems.Kernel.Fifo
import SpeakingClock.Theorems.Schedule

/-! The firmware on the kernel's queues does what the firmware does on a flag and a list: each step of one
    is a step of the other, and they stay alike along every run. -/

namespace SpeakingClock.Kernel
open Run

/-! ### What a step reads of the semaphore and the queue -/

/-- The same tasks with another semaphore and queue. -/
def withIpc (s : State) (sem : Bool) (queue : List TimeMsg) : State := { s with sem := sem, queue := queue }

section
variable (s : State) (sem : Bool) (queue : List TimeMsg)

theorem afterLoop_withIpc (retries : Nat) (events : List Event) :
    (withIpc s sem queue).afterLoop retries events = withIpc (s.afterLoop retries events) sem queue := by
  unfold State.afterLoop
  split <;> rfl

theorem attempt_withIpc (retries : Nat) (env : QueryEnv) :
    (withIpc s sem queue).attempt retries env = withIpc (s.attempt retries env) sem queue := by
  have hntp : (withIpc s sem queue).ntp = s.ntp := rfl
  simp only [State.attempt, hntp]
  generalize ntpGetTime scripted s.ntp.msg (s.ntp.app, env) = r
  by_cases hr : r.1 = 0
  · simp only [if_pos hr]
    rfl
  · simp only [if_neg hr]
    by_cases hp : retries - 1 > 0
    · simp only [if_pos hp]
      rfl
    · simp only [if_neg hp]
      exact afterLoop_withIpc { s with ntp := { s.ntp with msg := r.2.1, app := r.2.2.1 } } sem queue _ _

theorem putc_withIpc (w : Writer) : (withIpc s sem queue).putc w = (s.putc w).map (withIpc · sem queue) := by
  cases w with
  | main => rfl
  | key =>
    simp only [State.putc, withIpc]
    cases s.key.out <;> rfl
  | ntp =>
    simp only [State.putc, withIpc]
    cases s.ntp.app.uart <;> rfl
  | speech =>
    simp only [State.putc, withIpc]
    cases s.speech.out <;> rfl

theorem keyStep_withIpc {a : Action} (hgive : a ≠ .keyGive) :
    (withIpc s sem queue).keyStep a = (s.keyStep a).map (withIpc · sem queue) := by
  have hkey : (withIpc s sem queue).key = s.key := rfl
  unfold State.keyStep
  rw [hkey]
  cases s.key.pc with
  | poll =>
    cases a with
    | keyPoll rx =>
      cases rx with
      | some c =>
        by_cases tT : c = 116 ∨ c = 84
        · simp only [if_pos tT]
          rfl
        · simp only [if_neg tT]
          rfl
      | none => rfl
    | _ => rfl
  | give =>
    cases a with
    | keyGive => exact absurd rfl hgive
    | _ => rfl
  | delay => cases a <;> rfl

theorem speechStep_withIpc {a : Action} (hreceive : a ≠ .speechReceive) :
    (withIpc s sem queue).speechStep a = (s.speechStep a).map (withIpc · sem queue) := by
  have hspeech : (withIpc s sem queue).speech = s.speech := rfl
  unfold State.speechStep
  rw [hspeech]
  split
  · exact absurd rfl hreceive
  · rfl
  · rfl
  · rfl

theorem ntpStep_withIpc {a : Action} (htake : a ≠ .ntpTake) (hsend : a ≠ .ntpSend) :
    (withIpc s sem queue).ntpStep a = (s.ntpStep a).map (withIpc · sem queue) := by
  have hntp : (withIpc s sem queue).ntp = s.ntp := rfl
  unfold State.ntpStep
  rw [hntp]
  split
  · split <;> rfl
  · rfl
  · exact absurd rfl htake
  · rfl
  · rw [attempt_withIpc]
    rfl
  · rfl
  · exact absurd rfl hsend
  · exact congrArg some (afterLoop_withIpc { s with ntp := { s.ntp with
      app := s.ntp.app.puts (cstr "NTP Task: Failed to send to queue!\r\n") } } sem queue _ _)
  · rfl
  · rfl

/-- A step other than the four reads neither, and leaves both alone. -/
theorem step_withIpc {a : Action} (hgive : a ≠ .keyGive) (htake : a ≠ .ntpTake) (hsend : a ≠ .ntpSend)
    (hreceive : a ≠ .speechReceive) :
    step (withIpc s sem queue) a = (step s a).map (withIpc · sem queue) := by
  have hout : ∀ w, (withIpc s sem queue).out w = s.out w := fun w => by cases w <;> rfl
  unfold step
  split
  · exact putc_withIpc ..
  · exact putc_withIpc ..
  · exact putc_withIpc ..
  · rw [hout]
    split
    · split
      · exact keyStep_withIpc _ _ _ hgive
      · exact ntpStep_withIpc _ _ _ htake hsend
      · exact speechStep_withIpc _ _ _ hreceive
      · rfl
    · rfl

theorem step_give : step (withIpc s sem queue) .keyGive = (step s .keyGive).map (withIpc · true queue) := by
  show (if s.key.out = [] then (withIpc s sem queue).keyStep .keyGive else none) =
    (if s.key.out = [] then s.keyStep .keyGive else none).map _
  split
  · unfold State.keyStep
    cases hpc : s.key.pc <;> simp [withIpc, hpc]
  · rfl

theorem step_take (hsem : s.sem = true) :
    step (withIpc s true queue) .ntpTake = (step s .ntpTake).map (withIpc · false queue) := by
  show (if s.ntp.app.uart = [] then (withIpc s true queue).ntpStep .ntpTake else none) =
    (if s.ntp.app.uart = [] then s.ntpStep .ntpTake else none).map _
  split
  · unfold State.ntpStep
    cases hpc : s.ntp.pc <;> simp [withIpc, hpc, hsem]
  · rfl

theorem step_send (hqueue : s.queue = []) :
    step (withIpc s sem []) .ntpSend = (step s .ntpSend).map (withIpc · sem [s.ntp.msg]) := by
  show (if s.ntp.app.uart = [] then (withIpc s sem []).ntpStep .ntpSend else none) =
    (if s.ntp.app.uart = [] then s.ntpStep .ntpSend else none).map _
  split
  · unfold State.ntpStep
    cases hpc : s.ntp.pc with
    | send retries =>
      simp only [show (withIpc s sem []).ntp = s.ntp from rfl, hpc, show (withIpc s sem []).queue = [] from rfl, hqueue,
        ↓reduceIte, Option.map_some]
      exact congrArg some (afterLoop_withIpc { s with queue := [s.ntp.msg] } sem [s.ntp.msg] _ _)
    | _ => simp [withIpc, hpc]
  · rfl

theorem step_receive (m : TimeMsg) (hqueue : s.queue = [m]) :
    step (withIpc s sem [m]) .speechReceive = (step s .speechReceive).map (withIpc · sem []) := by
  show (if s.speech.out = [] then (withIpc s sem [m]).speechStep .speechReceive else none) =
    (if s.speech.out = [] then s.speechStep .speechReceive else none).map _
  split
  · unfold State.speechStep
    cases hpc : s.speech.pc <;> simp [withIpc, hpc, hqueue]
  · rfl

end

/-! ### One step -/

/-- The tasks are the same, the semaphore is full when the flag is set, and the queue holds the messages. -/
structure Refines (k : Machine) (s : State) : Prop where
  tasks : s = k.tasks s.sem s.queue
  sem : k.timeRequestSem.Holds (if s.sem then [[]] else [])
  semLength : k.timeRequestSem.uxLength = 1
  semSize : k.timeRequestSem.uxItemSize = 0
  queue : k.timeQueue.Holds (s.queue.map msgBytes)
  queueLength : k.timeQueue.uxLength = 1
  queueSize : k.timeQueue.uxItemSize = 3

theorem msgOf_msgBytes (m : TimeMsg) : msgOf (msgBytes m) = m := rfl

theorem copied_msgAt (m : TimeMsg) : copied (msgAt m) 3 = msgBytes m := rfl

namespace Refines
variable {k : Machine} {s : State}

theorem tasks_eq (h : Refines k s) (sem : Bool) (queue : List TimeMsg) : k.tasks sem queue = withIpc s sem queue := by
  rw [h.tasks]
  rfl

/-- Steps that leave the semaphore and the queue alone. -/
theorem other (h : Refines k s) {a : Action} (hgive : a ≠ .keyGive) (htake : a ≠ .ntpTake) (hsend : a ≠ .ntpSend)
    (hreceive : a ≠ .speechReceive) : Option.Rel Refines (k.step a) (step s a) := by
  have hk : k.step a = (step (k.tasks false []) a).map k.went := by
    cases a <;> first | rfl | contradiction
  have hs : step (k.tasks false []) a = (step s a).map (withIpc · false []) := by
    rw [h.tasks_eq]
    exact step_withIpc s false [] hgive htake hsend hreceive
  have hkeep : step s a = (step s a).map (withIpc · s.sem s.queue) := step_withIpc s s.sem s.queue hgive htake hsend hreceive
  rw [hk, hs, Option.map_map]
  cases hstep : step s a with
  | none => exact .none
  | some t =>
    rw [hstep, Option.map_some, Option.some.injEq] at hkeep
    have hsem : t.sem = s.sem := by rw [hkeep]; rfl
    have hqueue : t.queue = s.queue := by rw [hkeep]; rfl
    refine .some ⟨rfl, ?_, h.semLength, h.semSize, ?_, h.queueLength, h.queueSize⟩
    · rw [hsem]
      exact h.sem
    · rw [hqueue]
      exact h.queue

theorem give (h : Refines k s) : Option.Rel Refines (k.step .keyGive) (step s .keyGive) := by
  have hkeep : step s .keyGive = (step s .keyGive).map (withIpc · true s.queue) := step_give s s.sem s.queue
  have hs : step (k.tasks false []) .keyGive = (step s .keyGive).map (withIpc · true []) := by
    rw [h.tasks_eq]
    exact step_give s false []
  cases hstep : step s .keyGive with
  | none =>
    rw [hstep] at hs
    simp only [Machine.step, hs]
    exact .none
  | some t =>
    rw [hstep, Option.map_some] at hs
    rw [hstep, Option.map_some, Option.some.injEq] at hkeep
    have hsem : t.sem = true := by rw [hkeep]; rfl
    have hqueue : t.queue = s.queue := by rw [hkeep]; rfl
    -- One item without bytes is in the semaphore afterwards, whether it was full or not.
    obtain ⟨q, hk, hgiven⟩ : ∃ q, k.step .keyGive = some { k.went (withIpc t true []) with timeRequestSem := q } ∧
        k.timeRequestSem.Became [[]] q := by
      have hcopied : copied (fun _ => 0) k.timeRequestSem.uxItemSize = [] := by rw [h.semSize]; rfl
      rcases h.sem.trySend_back fun _ => 0 with ⟨hge, hnone⟩ | ⟨r, hlt, hsome, hb⟩
      · refine ⟨k.timeRequestSem, by simp only [Machine.step, hs, hnone]; rfl, ?_⟩
        cases hfull : s.sem with
        | true => exact ⟨by simpa [hfull] using h.sem, .refl _⟩
        | false => simp [hfull, h.semLength] at hge
      · refine ⟨r.1, by simp only [Machine.step, hs, hsome]; rfl, ?_⟩
        cases hfull : s.sem with
        | true => simp [hfull, h.semLength] at hlt
        | false => simpa [hfull, hcopied] using hb
    rw [hk]
    refine .some ⟨rfl, ?_, hgiven.2.length.trans h.semLength, hgiven.2.size.trans h.semSize, ?_, h.queueLength, h.queueSize⟩
    · rw [hsem]
      exact hgiven.1
    · rw [hqueue]
      exact h.queue

theorem take (h : Refines k s) : Option.Rel Refines (k.step .ntpTake) (step s .ntpTake) := by
  cases hfull : s.sem with
  | false =>
    have hsem := h.sem
    rw [hfull] at hsem
    have hk : k.step .ntpTake = none := by
      simp [Machine.step, Queue.trySemaphoreTake, Queue.Holds.empty hsem]
    have hs : step s .ntpTake = none := by
      show (if s.ntp.app.uart = [] then s.ntpStep .ntpTake else none) = none
      unfold State.ntpStep
      cases hpc : s.ntp.pc <;> simp [hfull]
    rw [hk, hs]
    exact .none
  | true =>
    have hsem := h.sem
    rw [hfull, if_pos rfl] at hsem
    obtain ⟨r, hr, hb⟩ := hsem.trySemaphoreTake h.semSize
    have hself : withIpc s true s.queue = s := by rw [← hfull]; rfl
    have hkeep := step_take s s.queue hfull
    rw [hself] at hkeep
    have hs : step (k.tasks true []) .ntpTake = (step s .ntpTake).map (withIpc · false []) := by
      rw [h.tasks_eq]
      exact step_take s [] hfull
    simp only [Machine.step, hr, hs]
    cases hstep : step s .ntpTake with
    | none => exact .none
    | some t =>
      rw [hstep, Option.map_some, Option.some.injEq] at hkeep
      have htsem : t.sem = false := by rw [hkeep]; rfl
      have hqueue : t.queue = s.queue := by rw [hkeep]; rfl
      refine .some ⟨rfl, ?_, hb.2.length.trans h.semLength, hb.2.size.trans h.semSize, ?_, h.queueLength, h.queueSize⟩
      · rw [htsem]
        exact hb.1
      · rw [hqueue]
        exact h.queue

theorem length_le_one (h : Refines k s) : s.queue.length ≤ 1 := by
  have := h.queue.length_le
  rwa [List.length_map, h.queueLength] at this

theorem send (h : Refines k s) : Option.Rel Refines (k.step .ntpSend) (step s .ntpSend) := by
  rcases h.queue.trySend_back (msgAt k.ntp.msg) with ⟨hge, hnone⟩ | ⟨r, hlt, hsome, hb⟩
  · have hs : step s .ntpSend = none := by
      have hfull : s.queue ≠ [] := fun hnil => hge (by simp [hnil, h.queueLength])
      show (if s.ntp.app.uart = [] then s.ntpStep .ntpSend else none) = none
      unfold State.ntpStep
      cases hpc : s.ntp.pc <;> simp [hfull]
    rw [hs]
    simp only [Machine.step, hnone]
    exact .none
  · have hempty : s.queue = [] := by
      rw [List.length_map, h.queueLength] at hlt
      exact List.length_eq_zero_iff.mp (by omega)
    have hmsg : k.ntp.msg = s.ntp.msg := by rw [h.tasks]; rfl
    have hself : withIpc s s.sem [] = s := by rw [← hempty]; rfl
    have hkeep := step_send s s.sem hempty
    rw [hself] at hkeep
    have hs : step (k.tasks false []) .ntpSend = (step s .ntpSend).map (withIpc · false [s.ntp.msg]) := by
      rw [h.tasks_eq]
      exact step_send s false hempty
    simp only [Machine.step, hsome, hs]
    cases hstep : step s .ntpSend with
    | none => exact .none
    | some t =>
      rw [hstep, Option.map_some, Option.some.injEq] at hkeep
      have hsem : t.sem = s.sem := by rw [hkeep]; rfl
      have hqueue : t.queue = [s.ntp.msg] := by rw [hkeep]; rfl
      refine .some ⟨rfl, ?_, h.semLength, h.semSize, ?_, hb.2.length.trans h.queueLength, hb.2.size.trans h.queueSize⟩
      · rw [hsem]
        exact h.sem
      · rw [hqueue]
        have hholds := hb.1
        rwa [hempty, h.queueSize, copied_msgAt, hmsg] at hholds

theorem receive (h : Refines k s) : Option.Rel Refines (k.step .speechReceive) (step s .speechReceive) := by
  rcases hqueue : s.queue with - | ⟨m, queue⟩
  · have hholds := h.queue
    rw [hqueue] at hholds
    have hs : step s .speechReceive = none := by
      show (if s.speech.out = [] then s.speechStep .speechReceive else none) = none
      unfold State.speechStep
      cases hpc : s.speech.pc <;> simp [hqueue]
    have hk : k.step .speechReceive = none := by
      simp [Machine.step, Queue.tryReceive, Queue.Holds.empty hholds]
    rw [hk, hs]
    exact .none
  · obtain rfl : queue = [] := by
      have := h.length_le_one
      rw [hqueue, List.length_cons] at this
      exact List.length_eq_zero_iff.mp (by omega)
    have hholds := h.queue
    rw [hqueue] at hholds
    obtain ⟨r, hr, hx, hb⟩ := hholds.tryReceive
    have hself : withIpc s s.sem [m] = s := by rw [← hqueue]; rfl
    have hkeep := step_receive s s.sem m hqueue
    rw [hself] at hkeep
    have hs : step (k.tasks false [msgOf r.1]) .speechReceive = (step s .speechReceive).map (withIpc · false []) := by
      rw [h.tasks_eq, hx, msgOf_msgBytes]
      exact step_receive s false m hqueue
    simp only [Machine.step, hr, Option.bind_eq_bind, Option.bind_some, hs]
    cases hstep : step s .speechReceive with
    | none => exact .none
    | some t =>
      rw [hstep, Option.map_some, Option.some.injEq] at hkeep
      have hsem : t.sem = s.sem := by rw [hkeep]; rfl
      have hqueue' : t.queue = [] := by rw [hkeep]; rfl
      refine .some ⟨rfl, ?_, h.semLength, h.semSize, ?_, hb.2.length.trans h.queueLength, hb.2.size.trans h.queueSize⟩
      · rw [hsem]
        exact h.sem
      · rw [hqueue']
        exact hb.1

theorem step (h : Refines k s) (a : Action) : Option.Rel Refines (k.step a) (SpeakingClock.step s a) := by
  by_cases hgive : a = .keyGive
  · exact hgive ▸ h.give
  · by_cases htake : a = .ntpTake
    · exact htake ▸ h.take
    · by_cases hsend : a = .ntpSend
      · exact hsend ▸ h.send
      · by_cases hreceive : a = .speechReceive
        · exact hreceive ▸ h.receive
        · exact h.other hgive htake hsend hreceive

end Refines

/-! ### Runs -/

/-- The firmware on the queues that `main` creates follows the firmware on a flag and a list, step by step:
    for every list of actions both runs are possible or neither is, and then the tasks, the UART and the
    history are the same and the queues hold what the flag and the list say. -/
theorem machine_refines {p r : Int} {mem : Int → UInt8} {sem queue : Queue Writer}
    (hsem : xQueueGenericCreate 1 0 (some p) mem = some sem)
    (hqueue : xQueueGenericCreate 1 3 (some r) mem = some queue) (hw : HwInit) (msg : TimeMsg) (as : List Action) :
    Option.Rel Refines (exec Machine.step (Machine.init hw msg sem queue) as) (exec step (State.init hw msg) as) := by
  induction as using List.reverseRecOn with
  | nil =>
    obtain ⟨hs, hsl, hss, -⟩ := create_holds hsem
    obtain ⟨hq, hql, hqs, -⟩ := create_holds hqueue
    exact .some ⟨rfl, hs, hsl, hss, hq, hql, hqs⟩
  | append_singleton as a ih =>
    rw [exec_snoc, exec_snoc]
    generalize exec Machine.step (Machine.init hw msg sem queue) as = k at ih ⊢
    generalize exec SpeakingClock.step (State.init hw msg) as = s at ih ⊢
    cases ih with
    | some h => exact h.step a
    | none => exact .none

/-- A run with three requests: the kernel's queues allow it, and what was given, taken, sent and received
    through them is the same. -/
theorem machine_refines_threeRounds : ∃ (sem queue : Queue Writer) (as : List Action) (k : Machine) (s : State),
    xQueueGenericCreate 1 0 (some 0x20000000) (fun _ => 0) = some sem ∧
    xQueueGenericCreate 1 3 (some 0x20000100) (fun _ => 0) = some queue ∧
    exec Machine.step (Machine.init qemuHw ⟨0, 0, 0⟩ sem queue) as = some k ∧
    exec step (State.init qemuHw ⟨0, 0, 0⟩) as = some s ∧ Refines k s ∧ s.history = threeEvents ∧
    k.history = threeEvents := by
  obtain ⟨s, hs, heq⟩ := Option.map_eq_some_iff.mp runSchedule_threeRounds
  obtain ⟨hhistory, -⟩ := Prod.mk.inj heq
  obtain ⟨as, has⟩ := (reaches_of_runSchedule steady_scheduled hs).exists_exec
  obtain ⟨sem, hsem⟩ : ∃ sem : Queue Writer, xQueueGenericCreate 1 0 (some 0x20000000) (fun _ => 0) = some sem := ⟨_, rfl⟩
  obtain ⟨queue, hqueue⟩ : ∃ queue : Queue Writer, xQueueGenericCreate 1 3 (some 0x20000100) (fun _ => 0) = some queue :=
    ⟨_, rfl⟩
  have hrefines := machine_refines hsem hqueue qemuHw ⟨0, 0, 0⟩ as
  rw [has] at hrefines
  generalize hk : exec Machine.step (Machine.init qemuHw ⟨0, 0, 0⟩ sem queue) as = r at hrefines
  cases hrefines with
  | some h => exact ⟨sem, queue, as, _, s, hsem, hqueue, hk, has, h, hhistory, by rw [← hhistory, h.tasks]; rfl⟩

end SpeakingClock.Kernel
