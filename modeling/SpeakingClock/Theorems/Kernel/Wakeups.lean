import SpeakingClock.Lib.Run
import SpeakingClock.Theorems.Kernel.Fifo
import SpeakingClock.Theorems.Kernel.Rooms

/-! Tasks and interrupts on one queue, in any order. What the calls get from the queue is what they would
    get from a list, and no wake-up is lost: while a task waits, every item, or every free slot, has a
    task that comes for it. -/

namespace SpeakingClock.Kernel
open Run WaitingRoom

section
variable {T : Type} {n size : Nat}

theorem create_unlocked {p : Int} {mem : Int → UInt8} {q : Queue T} (h : xQueueGenericCreate n size (some p) mem = some q)
    (b : Bool) : q.lockCount b = queueUnlocked ∧ q.waiters b = [] := by
  unfold xQueueGenericCreate at h
  split at h
  · rename_i hc
    rw [Option.map_some, Option.some.injEq] at h
    subst h
    rw [prvInitialiseNewQueue, xQueueGenericReset, if_pos ⟨hc.1, hc.2.1⟩, if_pos rfl]
    cases b <;> exact ⟨rfl, rfl⟩
  · cases h

variable [DecidableEq T] {t : T}

theorem Sys.goto_eq (s : Sys T) (t : T) (p : Pc) : s.goto t p = ⟨s.queue, Function.update s.pc t p, s.suspended, s.history⟩ := rfl

def Pc.call : Pc → Option Call
  | .out => none
  | .top c _ | .suspend c _ | .lock c _ | .check c _ | .test c _ | .place c _ | .unlockTx c _ _ | .unlockRx c _ _
  | .resume c _ _ | .waiting c _ | .retest c _ => some c

theorem calls_update {pc : T → Pc} (h : ∀ t c, (pc t).call = some c → c.op.Allowed n size) {p : Pc}
    (hp : ∀ c, p.call = some c → c.op.Allowed n size) (u : T) (c : Call) (hu : (Function.update pc t p u).call = some c) :
    c.op.Allowed n size := by
  by_cases hut : u = t
  · subst hut
    rw [Function.update_self] at hu
    exact hp c hu
  · rw [Function.update_of_ne hut] at hu
    exact h u c hu

variable [Fintype T] {s s' : Sys T} {a : Act T} {uxPriority : T → Nat}

/-- The assertions at the start of each call, and of an interrupt. -/
def Act.Allowed (n size : Nat) : Act T → Prop
  | .call _ c _ => c.op.Allowed n size
  | .interrupt o => o.Allowed n size
  | _ => True

/-- What a step does at the queue: a call that is noted, or something that does not touch the items. -/
inductive Sys.Used (s s' : Sys T) (n size : Nat) : Prop where
  | call (o : Op) (r : Result) (allowed : o.Allowed n size) (op : s.queue.op (Fintype.card T) o = some (s'.queue, r))
      (history : s'.history = s.history ++ [(o, r)])
  | ring (same : s.queue.SameRing s'.queue) (history : s'.history = s.history)

structure Sys.Inv (n size : Nat) (s : Sys T) : Prop where
  wf : s.WF
  rooms : ∀ b, (s.room b).Inv (Fintype.card T)
  calls : ∀ t c, (s.pc t).call = some c → c.op.Allowed n size
  length : s.queue.uxLength = n
  itemSize : s.queue.uxItemSize = size
  linear : s.queue.Holds (fifoRun n size [] (s.history.map (·.1))).1 ∧
    (fifoRun n size [] (s.history.map (·.1))).2 = s.history.map (·.2)

theorem Sys.Inv.le (h : s.Inv n size) : s.queue.uxMessagesWaiting ≤ s.queue.uxLength := by
  rw [← h.linear.1.length]
  exact h.linear.1.length_le

/-- A task goes on in the call that it is in, until it returns. -/
theorem Sys.run_pc {e : Nat} (hrun : s.run uxPriority t e = some s') :
    ∃ p, s'.pc = Function.update s.pc t p ∧ ∀ c, p.call = some c → (s.pc t).call = some c := by
  unfold Sys.run at hrun
  cases hpc : s.pc t with
  | out => simp [hpc] at hrun
  | top c w =>
    simp only [hpc, Sys.use, Option.map_map, Option.map_eq_some_iff, Function.comp_apply] at hrun
    obtain ⟨⟨q, r⟩, -, rfl⟩ := hrun
    refine ⟨_, rfl, fun c' hc' => ?_⟩
    dsimp only at hc'
    split at hc'
    · exact hc'
    · cases hc'
  | suspend c w | lock c w | place c w | unlockTx c w next | unlockRx c w next =>
    simp only [hpc, Option.some.injEq] at hrun
    subst hrun
    exact ⟨_, rfl, fun _ hc' => hc'⟩
  | check c w =>
    simp only [hpc, Option.some.injEq] at hrun
    subst hrun
    refine ⟨_, rfl, fun c' hc' => ?_⟩
    split at hc'
    · exact hc'
    · split at hc' <;> exact hc'
  | test c w =>
    simp only [hpc, Option.some.injEq] at hrun
    subst hrun
    refine ⟨_, rfl, fun c' hc' => ?_⟩
    split at hc' <;> exact hc'
  | resume c w next =>
    simp only [hpc, Option.some.injEq] at hrun
    subst hrun
    refine ⟨_, rfl, fun c' hc' => ?_⟩
    cases next with
    | timedOut =>
      dsimp only at hc'
      split at hc'
      · cases hc'
      · exact hc'
    | _ => exact hc'
  | waiting c w =>
    simp only [hpc] at hrun
    split at hrun
    · cases hrun
    · cases hrun
      exact ⟨_, rfl, fun _ hc' => hc'⟩
  | retest c w =>
    simp only [hpc, Option.some.injEq] at hrun
    subst hrun
    refine ⟨_, rfl, fun c' hc' => ?_⟩
    split at hc'
    · cases hc'
    · exact hc'

/-- What a task does at the queue: only the head of the loop uses the items. -/
theorem Sys.Inv.used (h : s.Inv n size) {e : Nat} (hrun : s.run uxPriority t e = some s') : s.Used s' n size := by
  unfold Sys.run at hrun
  cases hpc : s.pc t with
  | out => simp [hpc] at hrun
  | top c w =>
    have hc : c.op.Allowed n size := h.calls t c (by rw [hpc]; rfl)
    simp only [hpc, Sys.use, Option.map_map, Option.map_eq_some_iff, Function.comp_apply] at hrun
    obtain ⟨⟨q, r⟩, hop, rfl⟩ := hrun
    exact .call c.op r hc hop rfl
  | place c w =>
    simp only [hpc, Option.some.injEq] at hrun
    subst hrun
    refine .ring ?_ rfl
    unfold Sys.placeOnEventList Sys.goto
    dsimp only
    split <;> exact ⟨rfl, rfl, rfl, rfl, rfl, rfl, rfl, rfl⟩
  | waiting c w =>
    simp only [hpc] at hrun
    split at hrun
    · cases hrun
    · cases hrun
      exact .ring ⟨rfl, rfl, rfl, rfl, rfl, rfl, rfl, rfl⟩ rfl
  | _ =>
    simp only [hpc, Option.some.injEq] at hrun
    subst hrun
    exact .ring ⟨rfl, rfl, rfl, rfl, rfl, rfl, rfl, rfl⟩ rfl

/-- What a step of a task is to those who wait. -/
theorem Sys.Inv.moved (h : s.Inv n size) {e : Nat} (hs : s.suspended = none ∨ s.suspended = some t)
    (hrun : s.run uxPriority t e = some s') : s.Moved s' := by
  have hnd : ∀ b, (s.queue.waiters b).Nodup := fun b => (h.rooms b).nodup
  have hin : (s.pc t).inside = true → s.suspended = some t := (h.wf.holder t).mp
  have hout : (s.pc t).inside = false → s.suspended = none := fun hi => hs.resolve_right fun hs' => by
    rw [(h.wf.holder t).mpr hs'] at hi
    cases hi
  unfold Sys.run at hrun
  cases hpc : s.pc t with
  | out => simp [hpc] at hrun
  | top c w =>
    have hs := hout (by rw [hpc]; rfl)
    have hc : c.op.Allowed n size := h.calls t c (by rw [hpc]; rfl)
    simp only [hpc, Sys.use, Option.map_map, Option.map_eq_some_iff, Function.comp_apply] at hrun
    obtain ⟨⟨q, r⟩, hop, rfl⟩ := hrun
    rw [Sys.goto_eq, hs]
    refine h.wf.top hnd h.le hpc hs (by rwa [h.length, h.itemSize]) hop ?_
    dsimp only
    split
    · rename_i hf
      exact .inr ⟨hf.1, rfl⟩
    · exact .inl rfl
  | suspend c w =>
    have hs := hout (by rw [hpc]; rfl)
    simp only [hpc, Option.some.injEq] at hrun
    subst hrun
    exact h.wf.suspend hpc hs
  | lock c w =>
    have hs := hin (by rw [hpc]; rfl)
    simp only [hpc, Option.some.injEq] at hrun
    subst hrun
    rw [Sys.goto_eq, hs]
    exact h.wf.lockQueue hpc hs
  | check c w =>
    have hs := hin (by rw [hpc]; rfl)
    simp only [hpc, Option.some.injEq] at hrun
    subst hrun
    rw [Sys.goto_eq, hs]
    refine h.wf.check hpc hs ?_
    split
    · exact .inl ⟨_, rfl⟩
    · split
      · exact .inl ⟨_, rfl⟩
      · exact .inr rfl
  | test c w =>
    have hs := hin (by rw [hpc]; rfl)
    simp only [hpc, Option.some.injEq] at hrun
    subst hrun
    rw [Sys.goto_eq, hs]
    refine h.wf.test hpc hs ?_
    split
    · rename_i hnone
      refine .inr ⟨rfl, ?_⟩
      cases hc : c.sends
      · simpa [hc, prvIsQueueEmpty] using hnone
      · simp only [hc, cond_true, prvIsQueueFull, decide_eq_true_eq] at hnone
        simp [hnone]
    · exact .inl rfl
  | place c w =>
    have hs := hin (by rw [hpc]; rfl)
    simp only [hpc, Option.some.injEq] at hrun
    subst hrun
    exact h.wf.place uxPriority hpc hs
  | unlockTx c w next =>
    have hs := hin (by rw [hpc]; rfl)
    simp only [hpc, Option.some.injEq] at hrun
    subst hrun
    rw [Sys.goto_eq, hs]
    refine h.wf.unlock (b := false) (hnd false) hs (by rw [hpc]; rfl) rfl rfl (by rw [hpc]; rfl) (fun b => ?_) (fun b => ?_)
      (fun _ => rfl) (fun _ => by rw [hpc]; rfl) rfl rfl ?_ rfl fun b => by cases b <;> rfl
    · cases next <;> simp [hpc, Pc.entered]
    · cases next <;> simp [hpc, Pc.coming, Pc.entered]
    · simp [Queue.unlockTx, unlockLoop_eq]
  | unlockRx c w next =>
    have hs := hin (by rw [hpc]; rfl)
    simp only [hpc, Option.some.injEq] at hrun
    subst hrun
    rw [Sys.goto_eq, hs]
    refine h.wf.unlock (b := true) (hnd true) hs (by rw [hpc]; rfl) rfl rfl (by rw [hpc]; rfl) (fun b => ?_) (fun b => ?_)
      (fun _ => rfl) (fun _ => by rw [hpc]; rfl) rfl rfl ?_ rfl fun b => by cases b <;> rfl
    · cases next <;> simp [hpc, Pc.entered]
    · cases next <;> simp [hpc, Pc.coming, Pc.entered]
    · simp [Queue.unlockRx, unlockLoop_eq]
  | resume c w next =>
    have hs := hin (by rw [hpc]; rfl)
    simp only [hpc, Option.some.injEq] at hrun
    subst hrun
    refine h.wf.resume hpc hs ?_
    cases next with
    | wait => exact .inl ⟨rfl, rfl⟩
    | retry => exact .inr (.inl ⟨rfl, rfl⟩)
    | timedOut =>
      refine .inr (.inr ⟨rfl, ?_⟩)
      dsimp only
      split
      · exact .inl rfl
      · exact .inr rfl
  | waiting c w =>
    have hs := hout (by rw [hpc]; rfl)
    simp only [hpc] at hrun
    split at hrun
    · cases hrun
    · rename_i hw
      cases hrun
      simp only [Sys.waits, Bool.decide_or, Bool.or_eq_true, decide_eq_true_eq, not_or] at hw
      rw [Sys.goto_eq, hs]
      refine h.wf.goto_top hs (fun b => ?_) fun b hb => ?_
      · cases b
        · exact hw.2
        · exact hw.1
      · simpa [hpc, Pc.coming, Pc.entered] using hb
  | retest c w =>
    have hs := hout (by rw [hpc]; rfl)
    have hnot : ∀ b, t ∉ s.queue.waiters b := fun b => h.wf.not_mem (by rw [hpc]; rfl)
    simp only [hpc, Option.some.injEq] at hrun
    subst hrun
    rw [Sys.goto_eq, hs]
    split
    · exact ⟨h.wf.goto_outside hs rfl (fun _ => rfl) (fun _ _ hu => hu) fun b hu => absurd hu (hnot b),
        fun b => Sys.moves_same hs rfl rfl rfl (by rw [hpc]; rfl)⟩
    · exact h.wf.goto_top hs hnot fun b _ => by rw [hpc]; rfl

/-- What the next step of a task does. -/
theorem Sys.Inv.run (h : s.Inv n size) {e : Nat} (hs : s.suspended = none ∨ s.suspended = some t)
    (hrun : s.run uxPriority t e = some s') :
    s.Moved s' ∧ s.Used s' n size ∧ ∀ t c, (s'.pc t).call = some c → c.op.Allowed n size := by
  obtain ⟨p, hp, hcall⟩ := Sys.run_pc hrun
  refine ⟨h.moved hs hrun, h.used hrun, fun u c hu => ?_⟩
  rw [hp] at hu
  exact calls_update h.calls (fun c hc => h.calls t c (hcall c hc)) u c hu

/-! ### Runs -/

theorem Sys.Inv.step (h : s.Inv n size) (ha : a.Allowed n size) (hs : s.step uxPriority a = some s') :
    s.Moved s' ∧ s.Used s' n size ∧ ∀ t c, (s'.pc t).call = some c → c.op.Allowed n size := by
  have hnd : ∀ b, (s.queue.waiters b).Nodup := fun b => (h.rooms b).nodup
  cases a with
  | call t c w =>
    simp only [Sys.step] at hs
    split at hs
    · rename_i hpc hsus
      cases hs
      refine ⟨?_, .ring ⟨rfl, rfl, rfl, rfl, rfl, rfl, rfl, rfl⟩ rfl, calls_update h.calls fun c' hc' => ?_⟩
      · rw [Sys.goto_eq, hsus]
        exact h.wf.goto_top hsus (fun b => h.wf.not_mem (by rw [hpc]; rfl)) fun b _ => by rw [hpc]; rfl
      · cases hc'
        exact ha
    · cases hs
  | run t e =>
    simp only [Sys.step] at hs
    split at hs
    · rename_i hsus
      exact h.run hsus hs
    · cases hs
  | tick t =>
    simp only [Sys.step] at hs
    split at hs
    · rename_i hc
      cases hs
      refine ⟨h.wf.tick (t := t) hnd hc.1 (fun b => ?_) (fun b => ?_) fun b => ?_, .ring ⟨rfl, rfl, rfl, rfl, rfl, rfl, rfl, rfl⟩ rfl,
        h.calls⟩
      all_goals cases b <;> rfl
    · cases hs
  | interrupt o =>
    simp only [Sys.step] at hs
    split at hs
    · rename_i hisr
      simp only [Sys.use, Option.map_map, Option.map_eq_some_iff, Function.comp_apply] at hs
      obtain ⟨⟨q, r⟩, hop, rfl⟩ := hs
      exact ⟨h.wf.interrupt hnd h.le (by rw [h.length, h.itemSize]; exact ha) hisr hop, .call o r ha hop rfl, h.calls⟩
    · cases hs

theorem fifoRun_snoc (xs : List Bytes) (os : List Op) (o : Op) :
    fifoRun n size xs (os ++ [o]) = ((fifoOp n size (fifoRun n size xs os).1 o).1,
      (fifoRun n size xs os).2 ++ [(fifoOp n size (fifoRun n size xs os).1 o).2]) := by
  induction os generalizing xs with
  | nil => rfl
  | cons o' os ih => simp [fifoRun, ih]

/-- Nobody is in a call of a new queue. -/
theorem Sys.Inv.init {q : Queue T} (hempty : q.Holds []) (hlength : q.uxLength = n) (hsize : q.uxItemSize = size)
    (hlock : ∀ b, q.lockCount b = queueUnlocked) (hw : ∀ b, q.waiters b = []) : (Sys.init q).Inv n size where
  wf := ⟨fun t => by simp [Sys.init, Pc.inside], fun b => by simp [Sys.isLocked, Sys.init, hlock],
    fun b t ht => by simp [Sys.init, hw] at ht⟩
  rooms b := by
    refine ⟨?_, ?_, ?_, ?_, ?_⟩ <;> simp [Sys.room, Sys.init, hw, hlock]
  calls t c hc := by cases hc
  length := hlength
  itemSize := hsize
  linear := ⟨hempty, rfl⟩

theorem Sys.Inv.kept (h : s.Inv n size) (hcap : Fintype.card T ≤ 127) (hsize : size ≤ sizeMax / n)
    (ha : a.Allowed n size) (hs : s.step uxPriority a = some s') : s'.Inv n size := by
  obtain ⟨hmoved, hused, hcalls⟩ := h.step ha hs
  have hrooms : ∀ b, (s'.room b).Inv (Fintype.card T) := fun b => (h.rooms b).moves (Nat.le_refl _) (hmoved.moves b)
  cases hused with
  | ring same history =>
    refine ⟨hmoved.wf, hrooms, hcalls, same.length.trans h.length, same.size.trans h.itemSize, ?_⟩
    rw [history]
    exact ⟨same.holds h.linear.1, h.linear.2⟩
  | call o r allowed op history =>
    have hallowed : o.Allowed s.queue.uxLength s.queue.uxItemSize := by rwa [h.length, h.itemSize]
    obtain ⟨q', hop, hbecame⟩ := h.linear.1.op hallowed (by rwa [h.length, h.itemSize]) hcap
    obtain ⟨rfl, hr⟩ : s'.queue = q' ∧ r = _ := by simpa [op] using hop
    refine ⟨hmoved.wf, hrooms, hcalls, hbecame.2.length.trans h.length, hbecame.2.size.trans h.itemSize, ?_⟩
    rw [history, List.map_append, List.map_append, List.map_singleton, List.map_singleton, fifoRun_snoc, hr, h.length,
      h.itemSize, h.linear.2]
    refine ⟨?_, rfl⟩
    have hholds := hbecame.1
    rwa [h.length, h.itemSize] at hholds

/-- In every state that tasks and interrupts can bring about. -/
theorem Sys.Inv.reaches {p : Int} {mem : Int → UInt8} {q : Queue T} (hq : xQueueGenericCreate n size (some p) mem = some q)
    (hcap : Fintype.card T ≤ 127) (h : Reaches (Sys.step uxPriority) (fun _ a => a.Allowed n size) (Sys.init q) s) :
    s.Inv n size := by
  obtain ⟨hempty, hlength, hitem, -, hsize, -⟩ := create_holds hq
  refine h.invariant (.init hempty hlength hitem (fun b => (create_unlocked hq b).1) fun b => (create_unlocked hq b).2) ?_
  exact fun s a s' _ hs ha hstep => hs.kept hcap hsize ha hstep

/-- Whatever the order of the tasks and interrupts, and wherever tasks block, wake up and time out: what the
    critical sections at the queue return is what a list returns when it is used in their order, and the
    queue holds what that list then holds. -/
theorem interleaved_as_fifo {p : Int} {mem : Int → UInt8} {q : Queue T}
    (hq : xQueueGenericCreate n size (some p) mem = some q) (hcap : Fintype.card T ≤ 127)
    (h : Reaches (Sys.step uxPriority) (fun _ a => a.Allowed n size) (Sys.init q) s) :
    s.history.map (·.2) = (fifoRun n size [] (s.history.map (·.1))).2 ∧
      s.queue.Holds (fifoRun n size [] (s.history.map (·.1))).1 := by
  have hinv := Sys.Inv.reaches hq hcap h
  exact ⟨hinv.linear.2.symm, hinv.linear.1⟩

/-- A task waits on this side, or has found nothing there and is about to enter the list. -/
def Sys.Awaits (s : Sys T) (sends : Bool) : Prop := s.queue.waiters sends ≠ [] ∨ ∃ t, (s.pc t).placing sends = true

theorem Sys.Inv.locked (h : s.Inv n size) {b : Bool} {k : Nat} (hlock : s.queue.lockCount b = k) (hw : s.Awaits b) :
    Fintype.card T ≤ k ∨ s.queue.avail b ≤ (comingSet s.pc (s.queue.waiters b) b).card + k := by
  have hroom : (s.room b).lock = some k := by
    have hne : (k : Int) ≠ queueUnlocked := by
      unfold queueUnlocked
      omega
    simp [Sys.room, hlock, hne]
  refine (h.rooms b).locked k hroom (hw.imp id fun hplacing => ?_)
  obtain ⟨t, ht⟩ := hplacing
  -- a task that is about to enter has the scheduler suspended
  have hin : (s.pc t).inside = true := by
    cases hpc : s.pc t with
    | place c w => rfl
    | _ => simp [hpc, Pc.placing] at ht
  simp [Sys.room, (h.wf.holder t).mp hin, ht]

/-- No wake-up is lost. While the queue is not locked and a task waits to receive, there are at most as many
    items as tasks that were woken, or have begun a call, and will look for one. While it is locked, the lock
    counts the items that are too many, unless it counts enough to wake every task. Likewise for the tasks
    that wait to send and the free slots. -/
theorem no_wakeup_lost {p : Int} {mem : Int → UInt8} {q : Queue T}
    (hq : xQueueGenericCreate n size (some p) mem = some q) (hcap : Fintype.card T ≤ 127)
    (h : Reaches (Sys.step uxPriority) (fun _ a => a.Allowed n size) (Sys.init q) s) :
    (s.queue.cTxLock = queueUnlocked → s.queue.xTasksWaitingToReceive ≠ [] →
        uxQueueMessagesWaiting s.queue ≤ (comingSet s.pc s.queue.xTasksWaitingToReceive false).card) ∧
      (s.queue.cRxLock = queueUnlocked → s.queue.xTasksWaitingToSend ≠ [] →
        uxQueueSpacesAvailable s.queue ≤ (comingSet s.pc s.queue.xTasksWaitingToSend true).card) ∧
      (∀ k : Nat, s.queue.cTxLock = k → s.Awaits false → Fintype.card T ≤ k ∨
        uxQueueMessagesWaiting s.queue ≤ (comingSet s.pc s.queue.xTasksWaitingToReceive false).card + k) ∧
      ∀ k : Nat, s.queue.cRxLock = k → s.Awaits true → Fintype.card T ≤ k ∨
        uxQueueSpacesAvailable s.queue ≤ (comingSet s.pc s.queue.xTasksWaitingToSend true).card + k := by
  have hinv := Sys.Inv.reaches hq hcap h
  refine ⟨fun hfree hw => ?_, fun hfree hw => ?_, fun k hk hw => hinv.locked (b := false) hk hw,
    fun k hk hw => hinv.locked (b := true) hk hw⟩
  · exact (hinv.rooms false).free (by simp [Sys.room, hfree]) hw
  · exact (hinv.rooms true).free (by simp [Sys.room, hfree]) hw

end

/-! ### Two runs -/

/-- One task waits for a semaphore. The second has the queue locked when an interrupt gives it: the lock
    counts it, and no task is woken. -/
def lockedReceivers : List (Act (Fin 2)) :=
  .call 0 .semaphoreTake portMaxDelay :: List.replicate 9 (.run 0 0) ++
    (.call 1 .semaphoreTake portMaxDelay :: List.replicate 4 (.run 1 0)) ++ [.interrupt .giveFromISR]

/-- Two tasks wait for a semaphore, and an interrupt gives it: one is woken, and comes for it. -/
def twoReceivers : List (Act (Fin 2)) :=
  let wait (t : Fin 2) : List (Act (Fin 2)) := .call t .semaphoreTake portMaxDelay :: List.replicate 9 (.run t 0)
  wait 0 ++ wait 1 ++ [.interrupt .giveFromISR]

def semaphoreOfTwo : Queue (Fin 2) := prvInitialiseNewQueue 1 0 (0x20000000 + sizeofQueue) 0x20000000 fun _ => 0

/-- The state after a run, if it is possible. -/
def afterTwo (run : List (Act (Fin 2))) : Option (Sys (Fin 2)) := exec (Sys.step fun _ => 1) (Sys.init semaphoreOfTwo) run

theorem reaches_afterTwo {run : List (Act (Fin 2))} {s : Sys (Fin 2)} (hrun : run = twoReceivers ∨ run = lockedReceivers)
    (h : afterTwo run = some s) : Reaches (Sys.step fun _ => 1) (fun _ a => a.Allowed 1 0) (Sys.init semaphoreOfTwo) s := by
  refine Reaches.of_exec_all (fun a ha => ?_) h
  rcases hrun with rfl | rfl
  · simp only [twoReceivers, List.mem_append, List.mem_cons, List.mem_replicate, List.not_mem_nil, or_false] at ha
    rcases ha with ((rfl | ⟨-, rfl⟩) | rfl | ⟨-, rfl⟩) | rfl <;> simp [Act.Allowed, Call.op, Op.Allowed]
  · simp only [lockedReceivers, List.mem_append, List.mem_cons, List.mem_replicate, List.not_mem_nil, or_false] at ha
    rcases ha with ((rfl | ⟨-, rfl⟩) | rfl | ⟨-, rfl⟩) | rfl <;> simp [Act.Allowed, Call.op, Op.Allowed]

/-- The first task was woken, the second waits still, and the semaphore is there to be taken. -/
theorem afterTwo_receivers : ∃ s, afterTwo twoReceivers = some s ∧ s.queue.cTxLock = queueUnlocked ∧
    s.queue.xTasksWaitingToReceive = [1] ∧ uxQueueMessagesWaiting s.queue = 1 ∧
    s.history.map (·.2) = [.fail, .fail, .pass] := by
  have hview : (afterTwo twoReceivers).map (fun s => (s.queue.cTxLock, s.queue.xTasksWaitingToReceive,
      uxQueueMessagesWaiting s.queue, s.history.map (·.2))) = some (queueUnlocked, [1], 1, [.fail, .fail, .pass]) := by
    decide +kernel
  obtain ⟨s, hs, heq⟩ := Option.map_eq_some_iff.mp hview
  simp only [Prod.mk.injEq] at heq
  exact ⟨s, hs, heq⟩

/-- The semaphore is there to be taken and the first task waits still: the lock has counted one. -/
theorem afterTwo_locked : ∃ s, afterTwo lockedReceivers = some s ∧ s.queue.cTxLock = 1 ∧
    s.queue.xTasksWaitingToReceive = [0] ∧ uxQueueMessagesWaiting s.queue = 1 := by
  have hview : (afterTwo lockedReceivers).map (fun s => (s.queue.cTxLock, s.queue.xTasksWaitingToReceive,
      uxQueueMessagesWaiting s.queue)) = some (1, [0], 1) := by
    decide +kernel
  obtain ⟨s, hs, heq⟩ := Option.map_eq_some_iff.mp hview
  simp only [Prod.mk.injEq] at heq
  exact ⟨s, hs, heq⟩

theorem no_wakeup_lost_two :
    (∃ s, afterTwo twoReceivers = some s ∧ s.queue.xTasksWaitingToReceive = [1] ∧
      uxQueueMessagesWaiting s.queue = 1 ∧ 1 ≤ (comingSet s.pc s.queue.xTasksWaitingToReceive false).card) ∧
    ∃ s, afterTwo lockedReceivers = some s ∧ s.queue.xTasksWaitingToReceive = [0] ∧
      uxQueueMessagesWaiting s.queue = 1 ∧ s.queue.cTxLock = 1 ∧
      1 ≤ (comingSet s.pc s.queue.xTasksWaitingToReceive false).card + 1 := by
  constructor
  · obtain ⟨s, hs, hlock, hw, hcount, -⟩ := afterTwo_receivers
    have hlost := (no_wakeup_lost (p := 0x20000000) rfl (by decide) (reaches_afterTwo (.inl rfl) hs)).1 hlock (by simp [hw])
    rw [hcount] at hlost
    exact ⟨s, hs, hw, hcount, hlost⟩
  · obtain ⟨s, hs, hlock, hw, hcount⟩ := afterTwo_locked
    have hlost := (no_wakeup_lost (p := 0x20000000) rfl (by decide) (reaches_afterTwo (.inr rfl) hs)).2.2.1 1 hlock
      (.inl (by simp [hw]))
    rw [hcount] at hlost
    exact ⟨s, hs, hw, hcount, hlock, hlost.resolve_left (by decide)⟩

theorem interleaved_as_fifo_two : ∃ s, afterTwo twoReceivers = some s ∧
    s.history.map (·.2) = [.fail, .fail, .pass] ∧
    (fifoRun 1 0 [] (s.history.map (·.1))).2 = [.fail, .fail, .pass] := by
  obtain ⟨s, hs, -, -, -, hresults⟩ := afterTwo_receivers
  have hfifo := (interleaved_as_fifo (p := 0x20000000) rfl (by decide) (reaches_afterTwo (.inl rfl) hs)).1
  exact ⟨s, hs, hresults, hfifo.symm.trans hresults⟩

end SpeakingClock.Kernel
