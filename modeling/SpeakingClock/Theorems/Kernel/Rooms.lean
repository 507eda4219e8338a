import SpeakingClock.Kernel.Blocking
import SpeakingClock.Lib.WaitingRoom

/-! The tasks that wait to send to a queue and the tasks that wait to receive from it are two waiting
    rooms, for the free slots and for the items. Each critical section of the blocking calls, and each
    interrupt, is made of moves in either room. -/

namespace SpeakingClock.Kernel
open WaitingRoom

/-! ### Both sides of the queue

`sends` says which side: the tasks that wait to send, or those that wait to receive. -/

section
variable {T : Type}

def Queue.waiters (q : Queue T) (sends : Bool) : List T :=
  if sends then q.xTasksWaitingToSend else q.xTasksWaitingToReceive

/-- The lock that keeps interrupts from these tasks. -/
def Queue.lockCount (q : Queue T) (sends : Bool) : Int := if sends then q.cRxLock else q.cTxLock

/-- What these tasks wait for. -/
def Queue.avail (q : Queue T) (sends : Bool) : Nat :=
  if sends then q.uxLength - q.uxMessagesWaiting else q.uxMessagesWaiting

/-- The scheduler is suspended by this task. -/
def Pc.inside : Pc → Bool
  | .lock .. | .check .. | .test .. | .place .. | .unlockTx .. | .unlockRx .. | .resume .. => true
  | _ => false

/-- The task has this side of the queue locked. -/
def Pc.locked (sends : Bool) : Pc → Bool
  | .check .. | .test .. | .place .. | .unlockTx .. => true
  | .unlockRx .. => sends
  | _ => false

/-- The task was placed on the event list, and has not looked at the queue since. -/
def Pc.entered (sends : Bool) : Pc → Bool
  | .unlockTx c _ .wait | .unlockRx c _ .wait | .resume c _ .wait | .waiting c _ => c.sends = sends
  | _ => false

/-- Unless it is still on the event list, the task will look at the queue before it waits again. -/
def Pc.coming (sends : Bool) : Pc → Bool
  | .top c _ => c.sends = sends
  | pc => pc.entered sends

def Pc.placing (sends : Bool) : Pc → Bool
  | .place c _ => c.sends = sends
  | _ => false

/-- The task that suspended the scheduler has this side of the queue locked. -/
def Sys.isLocked (s : Sys T) (sends : Bool) : Bool := s.suspended.any fun t => (s.pc t).locked sends

/-- The scheduler, the locks and the event lists fit where the tasks are. -/
structure Sys.WF (s : Sys T) : Prop where
  holder : ∀ t, (s.pc t).inside = true ↔ s.suspended = some t
  lock : ∀ b, if s.isLocked b then 0 ≤ s.queue.lockCount b else s.queue.lockCount b = queueUnlocked
  entered : ∀ b, ∀ t ∈ s.queue.waiters b, (s.pc t).entered b = true

section
variable {s : Sys T} {t : T}

theorem Sys.WF.outside (h : s.WF) (hs : s.suspended = none) (u : T) : (s.pc u).inside = false := by
  have := (h.holder u).not.mpr (by simp [hs])
  simpa using this

theorem Sys.WF.not_mem (h : s.WF) {b : Bool} (ht : (s.pc t).entered b = false) : t ∉ s.queue.waiters b := fun hm => by
  rw [h.entered b t hm] at ht
  cases ht

theorem Sys.WF.isLocked_eq (h : s.WF) (hs : s.suspended = some t) (b : Bool) :
    if (s.pc t).locked b then 0 ≤ s.queue.lockCount b else s.queue.lockCount b = queueUnlocked := by
  simpa [Sys.isLocked, hs] using h.lock b

variable [DecidableEq T] {p : Pc} {q' : Queue T} {hist : List (Op × Result)}

/-- A task that has not suspended the scheduler goes on, and does not do so. -/
theorem Sys.WF.goto_outside (h : s.WF) (hs : s.suspended = none) (hp : p.inside = false)
    (hlock : ∀ b, q'.lockCount b = s.queue.lockCount b) (hsub : ∀ b, ∀ u ∈ q'.waiters b, u ∈ s.queue.waiters b)
    (hent : ∀ b, t ∈ q'.waiters b → p.entered b = true) :
    Sys.WF ⟨q', Function.update s.pc t p, none, hist⟩ := by
  refine ⟨fun u => ?_, fun b => ?_, fun b u hu => ?_⟩
  · by_cases hu : u = t
    · subst hu
      simp [hp]
    · simpa [hu] using h.outside hs u
  · have := h.lock b
    simp only [Sys.isLocked, hs, Option.any_none] at this ⊢
    rwa [hlock b]
  · by_cases hut : u = t
    · subst hut
      simpa using hent b hu
    · simpa [hut] using h.entered b u (hsub b u hu)

/-- The task that has the scheduler suspended goes on, and keeps it so. -/
theorem Sys.WF.goto_inside (h : s.WF) (hs : s.suspended = none ∨ s.suspended = some t) (hp : p.inside = true)
    (hlock : ∀ b, if p.locked b then 0 ≤ q'.lockCount b else q'.lockCount b = queueUnlocked)
    (hsub : ∀ b, ∀ u ∈ q'.waiters b, u ≠ t → u ∈ s.queue.waiters b)
    (hent : ∀ b, t ∈ q'.waiters b → p.entered b = true) :
    Sys.WF ⟨q', Function.update s.pc t p, some t, hist⟩ := by
  refine ⟨fun u => ?_, fun b => ?_, fun b u hu => ?_⟩
  · by_cases hu : u = t
    · subst hu
      simp [hp]
    · have hne : s.suspended ≠ some u := by
        rcases hs with hs | hs <;> simp [hs, Ne.symm hu]
      have := (h.holder u).not.mpr hne
      simp only [Function.update_of_ne hu, Option.some.injEq, Ne.symm hu, iff_false]
      exact this
  · simpa [Sys.isLocked] using hlock b
  · by_cases hut : u = t
    · subst hut
      simpa using hent b hu
    · simpa [hut] using h.entered b u (hsub b u hu hut)

end

/-! ### What the calls do to either side -/

section
variable {q q' : Queue T} {cap : Nat} {r : Result}

@[simp] theorem Queue.waiters_true (q : Queue T) : q.waiters true = q.xTasksWaitingToSend := rfl
@[simp] theorem Queue.waiters_false (q : Queue T) : q.waiters false = q.xTasksWaitingToReceive := rfl
@[simp] theorem Queue.lockCount_true (q : Queue T) : q.lockCount true = q.cRxLock := rfl
@[simp] theorem Queue.lockCount_false (q : Queue T) : q.lockCount false = q.cTxLock := rfl
@[simp] theorem Queue.avail_true (q : Queue T) : q.avail true = q.uxLength - q.uxMessagesWaiting := rfl
@[simp] theorem Queue.avail_false (q : Queue T) : q.avail false = q.uxMessagesWaiting := rfl

/-- What copying an item into the queue leaves alone, and how many there are then. -/
structure Queue.CopiedTo (q q' : Queue T) : Prop where
  toSend : q'.xTasksWaitingToSend = q.xTasksWaitingToSend
  toReceive : q'.xTasksWaitingToReceive = q.xTasksWaitingToReceive
  rxLock : q'.cRxLock = q.cRxLock
  txLock : q'.cTxLock = q.cTxLock
  spaces : q'.uxLength - q'.uxMessagesWaiting = q.uxLength - q.uxMessagesWaiting - 1
  messages : q'.uxMessagesWaiting ≤ q.uxMessagesWaiting + 1

theorem Queue.copiedTo (q : Queue T) (src : Nat → UInt8) {pos : Position}
    (hpos : pos = .overwrite → q.uxLength = 1 ∧ q.uxItemSize ≠ 0) : q.CopiedTo (prvCopyDataToQueue q src pos) := by
  unfold prvCopyDataToQueue
  split
  · exact ⟨rfl, rfl, rfl, rfl, by dsimp only; omega, Nat.le_refl _⟩
  · split
    · exact ⟨rfl, rfl, rfl, rfl, by dsimp only; omega, Nat.le_refl _⟩
    · refine ⟨rfl, rfl, rfl, rfl, ?_, ?_⟩
      · dsimp only
        split
        · rename_i hc
          have := (hpos hc.1).1
          omega
        · omega
      · dsimp only
        split <;> omega

/-- What copying an item from the queue leaves alone. -/
theorem Queue.copiedFrom (q : Queue T) :
    (prvCopyDataFromQueue q).2.xTasksWaitingToSend = q.xTasksWaitingToSend ∧
      (prvCopyDataFromQueue q).2.xTasksWaitingToReceive = q.xTasksWaitingToReceive ∧
      (prvCopyDataFromQueue q).2.cRxLock = q.cRxLock ∧ (prvCopyDataFromQueue q).2.cTxLock = q.cTxLock ∧
      (prvCopyDataFromQueue q).2.uxMessagesWaiting = q.uxMessagesWaiting ∧
      (prvCopyDataFromQueue q).2.uxLength = q.uxLength := by
  unfold prvCopyDataFromQueue
  split <;> simp

/-- Both sides after a call of a task that found what it waits for. -/
inductive Served (q q' : Queue T) (b : Bool) : Prop where
  /-- It took one, and made one for the other side. -/
  | used (own : q'.waiters b = q.waiters b) (one : q'.avail b = q.avail b - 1)
      (woke : q'.waiters (!b) = (q.waiters (!b)).tail) (more : q'.avail (!b) ≤ q.avail (!b) + 1)
  /-- It left the item for the next one. -/
  | left (woke : q'.waiters b = (q.waiters b).tail) (same : q'.avail b = q.avail b)
      (other : q'.waiters (!b) = q.waiters (!b)) (more : q'.avail (!b) = q.avail (!b))

theorem call_sides {c : Call} (hle : q.uxMessagesWaiting ≤ q.uxLength) (hc : c.op.Allowed q.uxLength q.uxItemSize)
    (h : q.op cap c.op = some (q', r)) :
    r = .fail ∧ q' = q ∧ q.avail c.sends = 0 ∨
      r ≠ .fail ∧ (∀ b, q'.lockCount b = q.lockCount b) ∧ Served q q' c.sends := by
  cases c with
  | send src pos =>
    simp only [Call.op, Queue.op, Queue.trySend, Option.some.injEq] at h
    split at h
    · rename_i w hw
      split at hw
      · cases hw
        cases h
        have hcopy := q.copiedTo src hc
        refine .inr ⟨by simp, ?_, .used hcopy.toSend hcopy.spaces ?_ hcopy.messages⟩
        · rintro (_ | _)
          · exact hcopy.txLock
          · exact hcopy.rxLock
        · simp [Call.sends, Queue.wakeReceiver, hcopy.toReceive]
      · cases hw
    · rename_i hw
      split at hw
      · cases hw
      · rename_i hfull
        cases h
        refine .inl ⟨rfl, rfl, ?_⟩
        simp only [Call.sends, Queue.avail_true]
        omega
  | receive =>
    simp only [Call.op, Queue.op, Queue.tryReceive, Option.some.injEq] at h
    obtain ⟨h1, h2, h3, h4, h5, h6⟩ := q.copiedFrom
    split at h
    · rename_i w hw
      split at hw
      · cases hw
        cases h
        refine .inr ⟨by simp, ?_, .used h2 rfl ?_ ?_⟩
        · rintro (_ | _)
          · exact h4
          · exact h3
        · simp [Call.sends, Queue.wakeSender, h1]
        · simp only [Call.sends, Queue.wakeSender, Bool.not_false, Queue.avail_true, h6]
          omega
      · cases hw
    · rename_i hw
      split at hw
      · cases hw
      · rename_i hempty
        cases h
        exact .inl ⟨rfl, rfl, Nat.eq_zero_of_not_pos hempty⟩
  | semaphoreTake =>
    simp only [Call.op, Queue.op, Queue.trySemaphoreTake, Option.some.injEq] at h
    split at h
    · rename_i w hw
      split at hw
      · cases hw
        cases h
        refine .inr ⟨by simp, fun b => by cases b <;> rfl, .used rfl rfl rfl ?_⟩
        simp only [Call.sends, Queue.wakeSender, Bool.not_false, Queue.avail_true]
        omega
      · cases hw
    · rename_i hw
      split at hw
      · cases hw
      · rename_i hempty
        cases h
        exact .inl ⟨rfl, rfl, Nat.eq_zero_of_not_pos hempty⟩
  | peek =>
    simp only [Call.op, Queue.op, Queue.tryPeek, Option.some.injEq] at h
    obtain ⟨h1, h2, h3, h4, h5, h6⟩ := q.copiedFrom
    split at h
    · rename_i w hw
      split at hw
      · cases hw
        cases h
        refine .inr ⟨by simp, ?_, .left ?_ h5 h1 ?_⟩
        · rintro (_ | _)
          · exact h4
          · exact h3
        · simp [Call.sends, Queue.wakeReceiver, h2]
        · simp [Call.sends, Queue.wakeReceiver, h5, h6]
      · cases hw
    · rename_i hw
      split at hw
      · cases hw
      · rename_i hempty
        cases h
        exact .inl ⟨rfl, rfl, Nat.eq_zero_of_not_pos hempty⟩

theorem unlockLoop_eq (n : Nat) (ws : List T) : unlockLoop n ws = (ws.take n, ws.drop n) := by
  induction n generalizing ws with
  | zero => cases ws <;> rfl
  | succ n ih =>
    cases ws with
    | nil => rfl
    | cons w ws => simp [unlockLoop, ih]

/-- Side `b` after an interrupt that made something for it, and the other side. -/
structure Interrupted (cap : Nat) (q q' : Queue T) (b : Bool) : Prop where
  other : q'.waiters (!b) = q.waiters (!b)
  otherLock : q'.lockCount (!b) = q.lockCount (!b)
  less : q'.avail (!b) ≤ q.avail (!b)
  more : q'.avail b ≤ q.avail b + 1
  own : q.lockCount b = queueUnlocked ∧ q'.lockCount b = queueUnlocked ∧ q'.waiters b = (q.waiters b).tail ∨
    q.lockCount b ≠ queueUnlocked ∧ q'.waiters b = q.waiters b ∧
      q'.lockCount b = if q.lockCount b < cap then q.lockCount b + 1 else q.lockCount b

theorem incrementLock_eq {lock lock' : Int} (h : incrementLock cap lock = some lock') :
    lock' = if lock < cap then lock + 1 else lock := by
  unfold incrementLock at h
  split at h
  · rename_i hlt
    split at h
    · cases h
    · cases h
      rw [if_pos hlt]
  · rename_i hlt
    cases h
    rw [if_neg hlt]

theorem Queue.posted_sides {x : Option T} (h : q.posted cap = some (q', x)) :
    q'.xTasksWaitingToSend = q.xTasksWaitingToSend ∧ q'.cRxLock = q.cRxLock ∧
      q'.uxMessagesWaiting = q.uxMessagesWaiting ∧ q'.uxLength = q.uxLength ∧
      (q.cTxLock = queueUnlocked ∧ q'.cTxLock = queueUnlocked ∧
          q'.xTasksWaitingToReceive = q.xTasksWaitingToReceive.tail ∨
        q.cTxLock ≠ queueUnlocked ∧ q'.xTasksWaitingToReceive = q.xTasksWaitingToReceive ∧
          q'.cTxLock = if q.cTxLock < cap then q.cTxLock + 1 else q.cTxLock) := by
  unfold Queue.posted at h
  split at h
  · rename_i hu
    cases h
    exact ⟨rfl, rfl, rfl, rfl, .inl ⟨hu, hu, rfl⟩⟩
  · rename_i hu
    rw [prvIncrementQueueTxLock, Option.map_map, Option.map_eq_some_iff] at h
    obtain ⟨lock, hlock, hq⟩ := h
    cases hq
    exact ⟨rfl, rfl, rfl, rfl, .inr ⟨hu, rfl, incrementLock_eq hlock⟩⟩

theorem interrupt_sides {o : Op} (hle : q.uxMessagesWaiting ≤ q.uxLength) (ho : o.Allowed q.uxLength q.uxItemSize)
    (hisr : o.FromISR = true) (h : q.op cap o = some (q', r)) :
    (∀ b, q'.waiters b = q.waiters b ∧ q'.lockCount b = q.lockCount b ∧ q'.avail b = q.avail b) ∨
      ∃ b, Interrupted cap q q' b := by
  cases o with
  | sendFromISR src pos =>
    simp only [Queue.op, xQueueGenericSendFromISR] at h
    split at h
    · rw [Option.map_map, Option.map_eq_some_iff] at h
      obtain ⟨⟨q₁, x⟩, hpost, hq⟩ := h
      cases hq
      have hcopy := q.copiedTo src ho
      obtain ⟨h1, h2, h3, h4, h5⟩ := Queue.posted_sides hpost
      refine .inr ⟨false, h1.trans hcopy.toSend, h2.trans hcopy.rxLock, ?_, ?_, ?_⟩
      · have := hcopy.spaces
        simp only [Bool.not_false, Queue.avail_true, h3, h4]
        omega
      · simp only [Queue.avail_false, h3]
        exact hcopy.messages
      · rw [hcopy.txLock, hcopy.toReceive] at h5
        exact h5
    · cases h
      exact .inl fun b => ⟨rfl, rfl, rfl⟩
  | giveFromISR =>
    simp only [Queue.op, xQueueGiveFromISR] at h
    split at h
    · rw [Option.map_map, Option.map_eq_some_iff] at h
      obtain ⟨⟨q₁, x⟩, hpost, hq⟩ := h
      cases hq
      obtain ⟨h1, h2, h3, h4, h5⟩ := Queue.posted_sides hpost
      refine .inr ⟨false, h1, h2, ?_, ?_, h5⟩
      · simp only [Bool.not_false, Queue.avail_true, h3, h4]
        omega
      · simp [h3]
    · cases h
      exact .inl fun b => ⟨rfl, rfl, rfl⟩
  | receiveFromISR =>
    simp only [Queue.op, xQueueReceiveFromISR] at h
    obtain ⟨h1, h2, h3, h4, h5, h6⟩ := q.copiedFrom
    split at h
    · split at h
      · rename_i hu
        cases h
        refine .inr ⟨true, h2, h4, ?_, ?_, .inl ⟨hu, h3.trans hu, ?_⟩⟩
        · simp [Queue.wakeSender]
        · simp only [Queue.wakeSender, Queue.avail_true, h6]
          omega
        · simp [Queue.wakeSender, h1]
      · rename_i hu
        rw [prvIncrementQueueRxLock, Option.map_map, Option.map_map, Option.map_eq_some_iff] at h
        obtain ⟨lock, hlock, hq⟩ := h
        cases hq
        refine .inr ⟨true, h2, h4, ?_, ?_, .inr ⟨hu, h1, ?_⟩⟩
        · simp
        · simp only [Queue.avail_true, h6]
          omega
        · have hcount := incrementLock_eq hlock
          dsimp only at hcount
          rw [h3] at hcount
          exact hcount
    · cases h
      exact .inl fun b => ⟨rfl, rfl, rfl⟩
  | peekFromISR =>
    simp only [Queue.op, xQueuePeekFromISR, Option.some.injEq] at h
    obtain ⟨h1, h2, h3, h4, h5, h6⟩ := q.copiedFrom
    split at h
    · cases h
      refine .inl fun b => ?_
      cases b <;> simp [h1, h2, h3, h4, h5, h6]
    · cases h
      exact .inl fun b => ⟨rfl, rfl, rfl⟩
  | _ => cases hisr

end

/-! ### Who comes -/

variable [DecidableEq T] [Fintype T]

def comingSet (pc : T → Pc) (ws : List T) (sends : Bool) : Finset T :=
  Finset.univ.filter fun t => (pc t).coming sends ∧ t ∉ ws

def Sys.room (s : Sys T) (sends : Bool) : Room T where
  avail := s.queue.avail sends
  lock := if s.queue.lockCount sends = queueUnlocked then none else some (s.queue.lockCount sends).toNat
  placing := s.suspended.any fun t => (s.pc t).placing sends
  waiters := s.queue.waiters sends
  coming := comingSet s.pc (s.queue.waiters sends) sends

section
variable {pc : T → Pc} {ws ws' : List T} {b : Bool} {t : T} {p : Pc}

theorem mem_comingSet : t ∈ comingSet pc ws b ↔ (pc t).coming b = true ∧ t ∉ ws := by simp [comingSet]

theorem comingSet_same (h : p.coming b = (pc t).coming b) : comingSet (Function.update pc t p) ws b = comingSet pc ws b := by
  ext u
  by_cases hu : u = t
  · subst hu
    simp [comingSet, h]
  · simp [comingSet, hu]

theorem comingSet_insert (h : p.coming b = true) (ht : t ∉ ws) :
    comingSet (Function.update pc t p) ws b = insert t (comingSet pc ws b) := by
  ext u
  by_cases hu : u = t
  · subst hu
    simp [comingSet, h, ht]
  · simp [comingSet, hu]

theorem comingSet_erase (h : p.coming b = false) :
    comingSet (Function.update pc t p) ws b = (comingSet pc ws b).erase t := by
  ext u
  by_cases hu : u = t
  · subst hu
    simp [comingSet, h]
  · simp [comingSet, hu]

theorem Pc.coming_of_entered (h : p.entered b = true) : p.coming b = true := by
  cases p <;> simp_all [Pc.coming, Pc.entered]

/-- Tasks taken off the event list come. -/
theorem comingSet_removed {gone : List T} (hmem : ∀ t, t ∈ ws ↔ t ∈ ws' ∨ t ∈ gone) (hgone : ∀ t ∈ gone, t ∉ ws')
    (hent : ∀ t ∈ ws, (pc t).entered b = true) : comingSet pc ws' b = comingSet pc ws b ∪ gone.toFinset := by
  ext u
  simp only [comingSet, Finset.mem_filter, Finset.mem_univ, true_and, Finset.mem_union, List.mem_toFinset]
  constructor
  · rintro ⟨hc, hu⟩
    by_cases hg : u ∈ gone
    · exact .inr hg
    · exact .inl ⟨hc, fun hw => ((hmem u).mp hw).elim hu hg⟩
  · rintro (⟨hc, hu⟩ | hg)
    · exact ⟨hc, fun hw => hu ((hmem u).mpr (.inl hw))⟩
    · exact ⟨Pc.coming_of_entered (hent u ((hmem u).mpr (.inr hg))), hgone u hg⟩

theorem comingSet_tail (hnd : ws.Nodup) (hent : ∀ t ∈ ws, (pc t).entered b = true) :
    comingSet pc ws.tail b = comingSet pc ws b ∪ ws.head?.toFinset := by
  cases ws with
  | nil => simp
  | cons u ws =>
    rw [List.nodup_cons] at hnd
    have hremoved : comingSet pc ws b = comingSet pc (u :: ws) b ∪ [u].toFinset :=
      comingSet_removed (by simp [or_comm]) (by simpa using hnd.1) hent
    simpa using hremoved

end

/-! ### Each step is made of moves in either room -/

section
variable {s s' : Sys T} {t : T} {b : Bool} {p : Pc} {q' : Queue T} {hist : List (Op × Result)}

/-- A state that is well formed, and whose rooms came about by moves from those of `s`. -/
structure Sys.Moved (s s' : Sys T) : Prop where
  wf : s'.WF
  moves : ∀ b, Moves (Fintype.card T) (s.room b) (s'.room b)

theorem Sys.WF.lock_none (h : s.WF) (hs : s.suspended = none) (b : Bool) : (s.room b).lock = none := by
  have := h.lock b
  simp only [Sys.isLocked, hs, Option.any_none, Bool.false_eq_true, ↓reduceIte] at this
  simp [Sys.room, this]

theorem Sys.room_outside (hs : s.suspended = none) (pc : T → Pc) (hlock : q'.lockCount b = s.queue.lockCount b) :
    Sys.room ⟨q', pc, none, hist⟩ b = { s.room b with
      avail := q'.avail b, waiters := q'.waiters b, coming := comingSet pc (q'.waiters b) b } := by
  simp [Sys.room, hs, hlock]

/-- A step outside the scheduler's suspension that leaves one side alone. -/
theorem Sys.moves_same (hs : s.suspended = none) (hlock : q'.lockCount b = s.queue.lockCount b)
    (hw : q'.waiters b = s.queue.waiters b) (ha : q'.avail b = s.queue.avail b)
    (hp : p.coming b = (s.pc t).coming b) :
    Moves (Fintype.card T) (s.room b) (Sys.room ⟨q', Function.update s.pc t p, none, hist⟩ b) := by
  rw [Sys.room_outside hs _ hlock, hw, ha, comingSet_same hp]
  exact .refl _

/-- A task arrives at the head of its loop. -/
theorem Sys.moves_come (hs : s.suspended = none) (hp : p.coming b = true) (ht : t ∉ s.queue.waiters b) :
    Moves (Fintype.card T) (s.room b) (Sys.room ⟨s.queue, Function.update s.pc t p, none, hist⟩ b) := by
  rw [Sys.room_outside hs _ rfl, comingSet_insert hp ht]
  exact (Move.come t ht).moves

theorem Call.coming_of_ne {c : Call} (hb : c.sends ≠ b) (n : Nat) : (Pc.top c n).coming b = false := by
  simpa [Pc.coming] using hb

/-- At the head of its loop a task is served, or finds nothing and leaves or goes on to wait. -/
theorem Sys.WF.top (h : s.WF) (hnd : ∀ b, (s.queue.waiters b).Nodup)
    (hle : s.queue.uxMessagesWaiting ≤ s.queue.uxLength) {c : Call} {n : Nat} (hpc : s.pc t = .top c n)
    (hs : s.suspended = none) (hc : c.op.Allowed s.queue.uxLength s.queue.uxItemSize) {r : Result}
    (hop : s.queue.op (Fintype.card T) c.op = some (q', r)) (hp : p = .out ∨ r = .fail ∧ p = .suspend c n) :
    s.Moved ⟨q', Function.update s.pc t p, none, hist⟩ := by
  have hinside : p.inside = false := by rcases hp with rfl | ⟨-, rfl⟩ <;> rfl
  have hcoming : ∀ b, p.coming b = false := fun b => by rcases hp with rfl | ⟨-, rfl⟩ <;> rfl
  have hout : ∀ b, t ∉ s.queue.waiters b := fun b => h.not_mem (by rw [hpc]; rfl)
  have hmem : t ∈ comingSet s.pc (s.queue.waiters c.sends) c.sends :=
    mem_comingSet.mpr ⟨by simp [hpc, Pc.coming], hout _⟩
  have hent : ∀ b, ∀ u ∈ s.queue.waiters b, (Function.update s.pc t p u).entered b = true := fun b u hu => by
    have hut : u ≠ t := fun he => hout b (he ▸ hu)
    rw [Function.update_of_ne hut]
    exact h.entered b u hu
  rcases call_sides hle hc hop with ⟨-, rfl, hnone⟩ | ⟨-, hlock, hserved⟩
  · refine ⟨h.goto_outside hs hinside (fun _ => rfl) (fun _ _ hu => hu) fun b hu => absurd hu (hout b), fun b => ?_⟩
    by_cases hb : c.sends = b
    · subst hb
      rw [Sys.room_outside hs _ rfl, comingSet_erase (hcoming _)]
      exact (Move.leave t hnone).moves
    · exact Sys.moves_same hs rfl rfl rfl (by rw [hcoming, hpc, Call.coming_of_ne hb])
  · cases hserved with
    | used own one woke more =>
      have hsub : ∀ b, ∀ u ∈ q'.waiters b, u ∈ s.queue.waiters b := fun b u hu => by
        by_cases hb : b = c.sends
        · rwa [hb, own, ← hb] at hu
        · obtain rfl : b = !c.sends := Bool.eq_not_iff.mpr hb
          rw [woke] at hu
          exact List.mem_of_mem_tail hu
      refine ⟨h.goto_outside hs hinside hlock hsub fun b hu => absurd (hsub b t hu) (hout b), fun b => ?_⟩
      by_cases hb : b = c.sends
      · subst hb
        rw [Sys.room_outside hs _ (hlock _), own, one, comingSet_erase (hcoming _)]
        exact (Move.take t hmem).moves
      · obtain rfl : b = !c.sends := Bool.eq_not_iff.mpr hb
        have hsame : p.coming (!c.sends) = (s.pc t).coming (!c.sends) := by
          rw [hcoming, hpc, Call.coming_of_ne (Ne.symm hb)]
        rw [Sys.room_outside hs _ (hlock _), woke, comingSet_same hsame, comingSet_tail (hnd _) (h.entered _)]
        exact (Move.post (h.lock_none hs _) more).moves
    | left woke same other more =>
      have hsub : ∀ b, ∀ u ∈ q'.waiters b, u ∈ s.queue.waiters b := fun b u hu => by
        by_cases hb : b = c.sends
        · rw [hb, woke] at hu
          rw [hb]
          exact List.mem_of_mem_tail hu
        · obtain rfl : b = !c.sends := Bool.eq_not_iff.mpr hb
          rwa [other] at hu
      refine ⟨h.goto_outside hs hinside hlock hsub fun b hu => absurd (hsub b t hu) (hout b), fun b => ?_⟩
      by_cases hb : b = c.sends
      · subst hb
        rw [Sys.room_outside hs _ (hlock _), woke, same, comingSet_tail (hnd _) (hent _), comingSet_erase (hcoming _)]
        exact (Move.hand t (h.lock_none hs _)).moves
      · obtain rfl : b = !c.sends := Bool.eq_not_iff.mpr hb
        exact Sys.moves_same hs (hlock _) other more (by rw [hcoming, hpc, Call.coming_of_ne (Ne.symm hb)])

/-- The task that has the scheduler suspended takes a step that leaves one side alone. -/
theorem Sys.moves_inside (hs : s.suspended = none ∨ s.suspended = some t)
    (hlock : q'.lockCount b = s.queue.lockCount b) (hw : q'.waiters b = s.queue.waiters b)
    (ha : q'.avail b = s.queue.avail b) (hp : p.coming b = (s.pc t).coming b)
    (hplacing : p.placing b = (s.pc t).placing b) (hfree : s.suspended = none → (s.pc t).placing b = false) :
    Moves (Fintype.card T) (s.room b) (Sys.room ⟨q', Function.update s.pc t p, some t, hist⟩ b) := by
  have heq : Sys.room ⟨q', Function.update s.pc t p, some t, hist⟩ b = s.room b := by
    rcases hs with hs | hs
    · simp [Sys.room, hs, hlock, hw, ha, comingSet_same hp, hplacing, hfree hs]
    · simp [Sys.room, hs, hlock, hw, ha, comingSet_same hp, hplacing]
  rw [heq]
  exact .refl _

theorem Sys.WF.lock_some (h : s.WF) (hs : s.suspended = some t) (hpc : (s.pc t).locked b = true) :
    (s.room b).lock = some (s.queue.lockCount b).toNat := by
  have hle : 0 ≤ s.queue.lockCount b := by simpa [hpc] using h.isLocked_eq hs b
  rw [Sys.room, if_neg (by unfold queueUnlocked; omega)]

/-- `vTaskSuspendAll`. -/
theorem Sys.WF.suspend (h : s.WF) {c : Call} {n : Nat} (hpc : s.pc t = .suspend c n) (hs : s.suspended = none) :
    s.Moved ⟨s.queue, Function.update s.pc t (.lock c n), some t, hist⟩ := by
  have hout : ∀ b, t ∉ s.queue.waiters b := fun b => h.not_mem (by rw [hpc]; rfl)
  refine ⟨h.goto_inside (.inl hs) rfl (fun b => ?_) (fun _ _ hu _ => hu) fun b hu => absurd hu (hout b), fun b => ?_⟩
  · simpa [Pc.locked, Sys.isLocked, hs] using h.lock b
  · exact Sys.moves_inside (.inl hs) rfl rfl rfl (by rw [hpc]; rfl) (by rw [hpc]; rfl) fun _ => by rw [hpc]; rfl

/-- `prvLockQueue`. -/
theorem Sys.WF.lockQueue (h : s.WF) {c : Call} {n : Nat} (hpc : s.pc t = .lock c n) (hs : s.suspended = some t) :
    s.Moved ⟨prvLockQueue s.queue, Function.update s.pc t (.check c n), some t, hist⟩ := by
  have hout : ∀ b, t ∉ s.queue.waiters b := fun b => h.not_mem (by rw [hpc]; rfl)
  have hfree : ∀ b, s.queue.lockCount b = queueUnlocked := fun b => by
    simpa [hpc, Pc.locked] using h.isLocked_eq hs b
  have hzero : ∀ b, (prvLockQueue s.queue).lockCount b = 0 := fun b => by
    have := hfree b
    cases b <;> simp_all [prvLockQueue, queueLockedUnmodified]
  have hw : ∀ b, (prvLockQueue s.queue).waiters b = s.queue.waiters b := fun b => by cases b <;> rfl
  have ha : ∀ b, (prvLockQueue s.queue).avail b = s.queue.avail b := fun b => by cases b <;> rfl
  refine ⟨h.goto_inside (.inr hs) rfl (fun b => ?_) (fun b u hu _ => hw b ▸ hu) fun b hu => absurd (hw b ▸ hu) (hout b),
    fun b => ?_⟩
  · simp [Pc.locked, hzero]
  · have hsame : (Pc.check c n).coming b = (s.pc t).coming b := by rw [hpc]; rfl
    have heq : Sys.room ⟨prvLockQueue s.queue, Function.update s.pc t (.check c n), some t, hist⟩ b =
        { s.room b with lock := some 0 } := by
      simp [Sys.room, hs, hzero, hw, ha, comingSet_same hsame, hpc, Pc.placing, queueUnlocked]
    rw [heq]
    exact (Move.lock (by simp [Sys.room, hfree])).moves

/-- A step between locking and unlocking that does not touch the queue. -/
theorem Sys.WF.goto_locked (h : s.WF) (hs : s.suspended = some t) (hpc : ∀ b, (s.pc t).locked b = true)
    (hin : p.inside = true) (hp : ∀ b, p.locked b = true) (hent : ∀ b, (s.pc t).entered b = false)
    (hmoves : ∀ b, Moves (Fintype.card T) (s.room b) (Sys.room ⟨s.queue, Function.update s.pc t p, some t, hist⟩ b)) :
    s.Moved ⟨s.queue, Function.update s.pc t p, some t, hist⟩ := by
  refine ⟨h.goto_inside (.inr hs) hin (fun b => ?_) (fun _ _ hu _ => hu) fun b hu => absurd hu (h.not_mem (hent b)), hmoves⟩
  rw [if_pos (hp b)]
  simpa [hpc] using h.isLocked_eq hs b

/-- `xTaskCheckForTimeOut`. -/
theorem Sys.WF.check (h : s.WF) {c : Call} {n : Nat} (hpc : s.pc t = .check c n) (hs : s.suspended = some t)
    (hp : (∃ m, p = .test c m) ∨ p = .unlockTx c 0 .timedOut) :
    s.Moved ⟨s.queue, Function.update s.pc t p, some t, hist⟩ := by
  have hfacts : p.inside = true ∧ (∀ b, p.locked b = true) ∧ (∀ b, p.coming b = false) ∧ ∀ b, p.placing b = false := by
    rcases hp with ⟨m, rfl⟩ | rfl <;> exact ⟨rfl, fun _ => rfl, fun _ => rfl, fun _ => rfl⟩
  refine h.goto_locked hs (fun _ => by rw [hpc]; rfl) hfacts.1 hfacts.2.1 (fun _ => by rw [hpc]; rfl) fun b => ?_
  refine Sys.moves_inside (.inr hs) rfl rfl rfl ?_ ?_ fun hs' => by rw [hs] at hs'; cases hs'
  · rw [hfacts.2.2.1, hpc]; rfl
  · rw [hfacts.2.2.2, hpc]; rfl

/-- `prvIsQueueFull` or `prvIsQueueEmpty`: there was nothing to be had after the queue was locked. -/
theorem Sys.WF.test (h : s.WF) {c : Call} {n : Nat} (hpc : s.pc t = .test c n) (hs : s.suspended = some t)
    (hp : p = .unlockTx c n .retry ∨ p = .place c n ∧ s.queue.avail c.sends = 0) :
    s.Moved ⟨s.queue, Function.update s.pc t p, some t, hist⟩ := by
  rcases hp with rfl | ⟨rfl, hnone⟩
  · refine h.goto_locked hs (fun _ => by rw [hpc]; rfl) rfl (fun _ => rfl) (fun _ => by rw [hpc]; rfl) fun b => ?_
    exact Sys.moves_inside (.inr hs) rfl rfl rfl (by rw [hpc]; rfl) (by rw [hpc]; rfl) fun hs' => by rw [hs] at hs'; cases hs'
  · refine h.goto_locked hs (fun _ => by rw [hpc]; rfl) rfl (fun _ => rfl) (fun _ => by rw [hpc]; rfl) fun b => ?_
    have hsame : (Pc.place c n).coming b = (s.pc t).coming b := by rw [hpc]; rfl
    by_cases hb : c.sends = b
    · subst hb
      have heq : Sys.room ⟨s.queue, Function.update s.pc t (.place c n), some t, hist⟩ c.sends =
          { s.room c.sends with placing := true } := by
        simp [Sys.room, hs, comingSet_same hsame, Pc.placing]
      rw [heq]
      exact (Move.check (by rw [h.lock_some hs (by rw [hpc]; rfl)]; rfl) hnone).moves
    · refine Sys.moves_inside (.inr hs) rfl rfl rfl hsame ?_ fun hs' => by rw [hs] at hs'; cases hs'
      rw [hpc]
      simpa [Pc.placing] using hb

/-- `vTaskPlaceOnEventList`. -/
theorem Sys.WF.place (h : s.WF) {c : Call} {n : Nat} (uxPriority : T → Nat) (hpc : s.pc t = .place c n)
    (hs : s.suspended = some t) : s.Moved ((s.placeOnEventList uxPriority t c.sends).goto t (.unlockTx c n .wait)) := by
  have hout : ∀ b, t ∉ s.queue.waiters b := fun b => h.not_mem (by rw [hpc]; rfl)
  let ins := List.orderedInsert (fun t u => uxPriority u < uxPriority t) t
  obtain ⟨q, hq⟩ : ∃ q, (s.placeOnEventList uxPriority t c.sends).queue = q := ⟨_, rfl⟩
  have hgoto : (s.placeOnEventList uxPriority t c.sends).goto t (.unlockTx c n .wait) =
      ⟨q, Function.update s.pc t (.unlockTx c n .wait), some t, s.history⟩ := by
    rw [← hq, ← hs]
    rfl
  have hown : q.waiters c.sends = ins (s.queue.waiters c.sends) := by
    subst hq
    cases hc : c.sends <;> simp [Sys.placeOnEventList, ins]
  have hother : q.waiters (!c.sends) = s.queue.waiters (!c.sends) := by
    subst hq
    cases hc : c.sends <;> simp [Sys.placeOnEventList]
  have hlock : ∀ b, q.lockCount b = s.queue.lockCount b := fun b => by
    subst hq
    cases hc : c.sends <;> cases b <;> simp [Sys.placeOnEventList]
  have ha : ∀ b, q.avail b = s.queue.avail b := fun b => by
    subst hq
    cases hc : c.sends <;> cases b <;> simp [Sys.placeOnEventList]
  have hperm : (ins (s.queue.waiters c.sends)).Perm (t :: s.queue.waiters c.sends) := List.perm_orderedInsert ..
  rw [hgoto]
  refine ⟨h.goto_inside (.inr hs) rfl (fun b => ?_) (fun b u hu hut => ?_) fun b hu => ?_, fun b => ?_⟩
  · rw [hlock]
    simpa [hpc, Pc.locked] using h.isLocked_eq hs b
  · by_cases hb : b = c.sends
    · rw [hb, hown] at hu
      rw [hb]
      exact (List.mem_cons.mp (hperm.mem_iff.mp hu)).resolve_left hut
    · obtain rfl : b = !c.sends := Bool.eq_not_iff.mpr hb
      rwa [hother] at hu
  · by_cases hb : b = c.sends
    · simp [Pc.entered, hb]
    · obtain rfl : b = !c.sends := Bool.eq_not_iff.mpr hb
      exact absurd (hother ▸ hu) (hout _)
  · by_cases hb : b = c.sends
    · subst hb
      -- On the event list the task does not come, whatever it does.
      have hcoming : comingSet (Function.update s.pc t (.unlockTx c n .wait)) (ins (s.queue.waiters c.sends)) c.sends =
          comingSet s.pc (s.queue.waiters c.sends) c.sends := by
        ext u
        by_cases hut : u = t
        · subst hut
          simp [mem_comingSet, hperm.mem_iff, hpc, Pc.coming, Pc.entered]
        · simp [mem_comingSet, hperm.mem_iff, hut]
      have heq : Sys.room ⟨q, Function.update s.pc t (.unlockTx c n .wait), some t, s.history⟩ c.sends =
          { s.room c.sends with waiters := ins (s.queue.waiters c.sends), placing := false } := by
        simp [Sys.room, hlock, hown, ha, hcoming, Pc.placing]
      rw [heq]
      refine (Move.place t ?_ ?_ (hout _) hperm).moves
      · simp [Sys.room, hs, hpc, Pc.placing]
      · simp [Sys.room, mem_comingSet, hpc, Pc.coming, Pc.entered]
    · obtain rfl : b = !c.sends := Bool.eq_not_iff.mpr hb
      refine Sys.moves_inside (.inr hs) (hlock _) hother (ha _) ?_ ?_ fun hs' => by rw [hs] at hs'; cases hs'
      · simp [hpc, Pc.coming, Pc.entered]
      · simp [hpc, Pc.placing]

/-- A critical section of `prvUnlockQueue`, which unlocks one side. -/
theorem Sys.WF.unlock (h : s.WF) (hnd : (s.queue.waiters b).Nodup) (hs : s.suspended = some t)
    (hpc : (s.pc t).locked b = true) (hin : p.inside = true) (hp : p.locked b = false)
    (hplock : p.locked (!b) = (s.pc t).locked (!b)) (hent : ∀ b, p.entered b = (s.pc t).entered b)
    (hcoming : ∀ b, p.coming b = (s.pc t).coming b) (hplacing : ∀ b, p.placing b = false)
    (hplacing' : ∀ b, (s.pc t).placing b = false) (hown : q'.lockCount b = queueUnlocked)
    (hother : q'.lockCount (!b) = s.queue.lockCount (!b))
    (hw : q'.waiters b = (s.queue.waiters b).drop (s.queue.lockCount b).toNat)
    (hw' : q'.waiters (!b) = s.queue.waiters (!b)) (ha : ∀ b, q'.avail b = s.queue.avail b) :
    s.Moved ⟨q', Function.update s.pc t p, some t, hist⟩ := by
  have hsub : ∀ a, ∀ u ∈ q'.waiters a, u ∈ s.queue.waiters a := fun a u hu => by
    by_cases hab : a = b
    · rw [hab, hw] at hu
      rw [hab]
      exact List.mem_of_mem_drop hu
    · obtain rfl : a = !b := Bool.eq_not_iff.mpr hab
      rwa [hw'] at hu
  refine ⟨h.goto_inside (.inr hs) hin (fun a => ?_) (fun a u hu _ => hsub a u hu) fun a hu => ?_, fun a => ?_⟩
  · by_cases hab : a = b
    · rw [hab, hp, hown]
      simp
    · obtain rfl : a = !b := Bool.eq_not_iff.mpr hab
      rw [hplock, hother]
      exact h.isLocked_eq hs _
  · rw [hent]
    exact h.entered a t (hsub a t hu)
  · by_cases hab : a = b
    · subst hab
      have hgone : comingSet s.pc ((s.queue.waiters a).drop (s.queue.lockCount a).toNat) a =
          comingSet s.pc (s.queue.waiters a) a ∪ ((s.queue.waiters a).take (s.queue.lockCount a).toNat).toFinset := by
        refine comingSet_removed (fun u => ?_) (fun u hu hu' => ?_) (h.entered a)
        · rw [← List.mem_append.trans or_comm, List.take_append_drop]
        · rw [← List.take_append_drop (s.queue.lockCount a).toNat (s.queue.waiters a)] at hnd
          exact (List.nodup_append.mp hnd).2.2 u hu u hu' rfl
      have heq : Sys.room ⟨q', Function.update s.pc t p, some t, hist⟩ a =
          { s.room a with
            lock := none
            waiters := (s.queue.waiters a).drop (s.queue.lockCount a).toNat
            coming := comingSet s.pc (s.queue.waiters a) a ∪
              ((s.queue.waiters a).take (s.queue.lockCount a).toNat).toFinset } := by
        simp [Sys.room, hs, hown, hw, ha, comingSet_same (hcoming a), hgone, hplacing, hplacing']
      rw [heq]
      exact (Move.unlock (h.lock_some hs hpc) (by simp [Sys.room, hs, hplacing'])).moves
    · obtain rfl : a = !b := Bool.eq_not_iff.mpr hab
      exact Sys.moves_inside (.inr hs) hother hw' (ha _) (hcoming _) (by rw [hplacing, hplacing'])
        fun hs' => by rw [hs] at hs'; cases hs'

/-- `xTaskResumeAll`. -/
theorem Sys.WF.resume (h : s.WF) {c : Call} {n : Nat} {next : Next} (hpc : s.pc t = .resume c n next)
    (hs : s.suspended = some t) (hp : next = .wait ∧ p = .waiting c n ∨ next = .retry ∧ p = .top c n ∨
      next = .timedOut ∧ (p = .out ∨ p = .retest c n)) :
    s.Moved ⟨s.queue, Function.update s.pc t p, none, hist⟩ := by
  have hfree : ∀ b, s.queue.lockCount b = queueUnlocked := fun b => by
    simpa [hpc, Pc.locked] using h.isLocked_eq hs b
  have hinside : p.inside = false := by rcases hp with ⟨-, rfl⟩ | ⟨-, rfl⟩ | ⟨-, rfl | rfl⟩ <;> rfl
  have hent : ∀ b, (s.pc t).entered b = true → p.entered b = true := fun b => by
    rcases hp with ⟨rfl, rfl⟩ | ⟨rfl, rfl⟩ | ⟨rfl, rfl | rfl⟩ <;> simp [hpc, Pc.entered]
  refine ⟨⟨fun u => ?_, fun b => ?_, fun b u hu => ?_⟩, fun b => ?_⟩
  · by_cases hut : u = t
    · subst hut
      simp [hinside]
    · have hne : s.suspended ≠ some u := by simp [hs, Ne.symm hut]
      simpa [hut] using (h.holder u).not.mpr hne
  · simp [Sys.isLocked, hfree]
  · by_cases hut : u = t
    · subst hut
      simpa using hent b (h.entered b u hu)
    · simpa [hut] using h.entered b u hu
  · have heq : Sys.room ⟨s.queue, Function.update s.pc t p, none, hist⟩ b =
        { s.room b with coming := comingSet (Function.update s.pc t p) (s.queue.waiters b) b } := by
      simp [Sys.room, hs, hpc, Pc.placing]
    rw [heq]
    rcases hp with ⟨rfl, rfl⟩ | ⟨rfl, rfl⟩ | ⟨rfl, hp⟩
    · rw [comingSet_same (by rw [hpc]; rfl)]
      exact .refl _
    · by_cases hb : c.sends = b
      · have hout : t ∉ s.queue.waiters b := h.not_mem (by rw [hpc]; rfl)
        rw [comingSet_insert (by simpa [Pc.coming] using hb) hout]
        exact (Move.come t hout).moves
      · rw [comingSet_same (by rw [hpc, Call.coming_of_ne hb]; rfl)]
        exact .refl _
    · rw [comingSet_same (by rcases hp with rfl | rfl <;> rw [hpc] <;> rfl)]
      exact .refl _

/-- A task begins a call, or goes back to the head of its loop. -/
theorem Sys.WF.goto_top (h : s.WF) (hs : s.suspended = none) {c : Call} {n : Nat} (hout : ∀ b, t ∉ s.queue.waiters b)
    (hpc : ∀ b, c.sends ≠ b → (s.pc t).coming b = false) :
    s.Moved ⟨s.queue, Function.update s.pc t (.top c n), none, hist⟩ := by
  refine ⟨h.goto_outside hs rfl (fun _ => rfl) (fun _ _ hu => hu) fun b hu => absurd hu (hout b), fun b => ?_⟩
  by_cases hb : c.sends = b
  · exact Sys.moves_come hs (by simpa [Pc.coming] using hb) (hout b)
  · exact Sys.moves_same hs rfl rfl rfl (by rw [hpc b hb, Call.coming_of_ne hb])

/-- `xTaskIncrementTick` takes a task off the event list it is on. -/
theorem Sys.WF.tick (h : s.WF) (hnd : ∀ b, (s.queue.waiters b).Nodup) (hs : s.suspended = none)
    (hw : ∀ b, q'.waiters b = (s.queue.waiters b).erase t) (hlock : ∀ b, q'.lockCount b = s.queue.lockCount b)
    (ha : ∀ b, q'.avail b = s.queue.avail b) : s.Moved { s with queue := q' } := by
  obtain ⟨q, pc, suspended, history⟩ := s
  obtain rfl : suspended = none := hs
  refine ⟨⟨h.holder, fun b => ?_, fun b u hu => ?_⟩, fun b => ?_⟩
  · dsimp only
    rw [hlock]
    exact h.lock b
  · dsimp only at hu
    rw [hw] at hu
    exact h.entered b u (List.mem_of_mem_erase hu)
  · rw [Sys.room_outside (s := ⟨q, pc, none, history⟩) rfl _ (hlock b), hw, ha]
    by_cases ht : t ∈ q.waiters b
    · have hgone : comingSet pc ((q.waiters b).erase t) b = comingSet pc (q.waiters b) b ∪ [t].toFinset := by
        refine comingSet_removed (fun u => ?_) (fun u hu => ?_) (h.entered b)
        · rw [(hnd b).mem_erase_iff, List.mem_singleton]
          by_cases hut : u = t <;> simp [hut, ht]
        · rw [List.mem_singleton.mp hu, (hnd b).mem_erase_iff]
          simp
      rw [hgone, List.toFinset_cons, List.toFinset_nil, insert_empty_eq, Finset.union_comm, ← Finset.insert_eq]
      exact (Move.expire t ht).moves
    · rw [List.erase_of_not_mem ht]
      exact .refl _

/-- An interrupt. -/
theorem Sys.WF.interrupt (h : s.WF) (hnd : ∀ b, (s.queue.waiters b).Nodup)
    (hle : s.queue.uxMessagesWaiting ≤ s.queue.uxLength) {o : Op} {r : Result}
    (ho : o.Allowed s.queue.uxLength s.queue.uxItemSize) (hisr : o.FromISR = true)
    (hop : s.queue.op (Fintype.card T) o = some (q', r)) : s.Moved { s with queue := q', history := hist } := by
  rcases interrupt_sides hle ho hisr hop with hsame | ⟨a, hint⟩
  · refine ⟨⟨h.holder, fun b => ?_, fun b u hu => h.entered b u ((hsame b).1 ▸ hu)⟩, fun b => ?_⟩
    · show if s.isLocked b then 0 ≤ q'.lockCount b else q'.lockCount b = queueUnlocked
      rw [(hsame b).2.1]
      exact h.lock b
    · have heq : Sys.room { s with queue := q', history := hist } b = s.room b := by
        simp [Sys.room, (hsame b).1, (hsame b).2.1, (hsame b).2.2]
      rw [heq]
      exact .refl _
  · have hlock : ∀ b, if s.isLocked b then 0 ≤ q'.lockCount b else q'.lockCount b = queueUnlocked := fun b => by
      have hb := h.lock b
      by_cases hba : b = a
      · subst hba
        rcases hint.own with ⟨hu, hu', -⟩ | ⟨hu, -, hcount⟩
        · cases hl : s.isLocked b
          · simpa using hu'
          · simp [hl, hu, queueUnlocked] at hb
        · cases hl : s.isLocked b
          · simp [hl, hu] at hb
          · simp only [hl, ↓reduceIte] at hb ⊢
            rw [hcount]
            split <;> omega
      · obtain rfl : b = !a := Bool.eq_not_iff.mpr hba
        rwa [hint.otherLock]
    refine ⟨⟨h.holder, hlock, fun b u hu => h.entered b u ?_⟩, fun b => ?_⟩
    · by_cases hba : b = a
      · subst hba
        rcases hint.own with ⟨-, -, hw⟩ | ⟨-, hw, -⟩
        · exact List.mem_of_mem_tail (hw ▸ hu)
        · exact hw ▸ hu
      · obtain rfl : b = !a := Bool.eq_not_iff.mpr hba
        exact hint.other ▸ hu
    · by_cases hba : b = a
      · subst hba
        rcases hint.own with ⟨hu, hu', hw⟩ | ⟨hu, hw, hcount⟩
        · have heq : Sys.room { s with queue := q', history := hist } b = { s.room b with avail := q'.avail b }.wake := by
            simp [Sys.room, Room.wake, hu, hu', hw, comingSet_tail (hnd b) (h.entered b)]
          rw [heq]
          exact (Move.post (by simp [Sys.room, hu]) hint.more).moves
        · have hpos : 0 ≤ s.queue.lockCount b := by
            have hb := h.lock b
            split at hb
            · exact hb
            · exact absurd hb hu
          have heq : Sys.room { s with queue := q', history := hist } b = { s.room b with
              avail := q'.avail b
              lock := some (if (s.queue.lockCount b).toNat < Fintype.card T then (s.queue.lockCount b).toNat + 1
                else (s.queue.lockCount b).toNat) } := by
            have hne : q'.lockCount b ≠ queueUnlocked := by
              rw [hcount]
              unfold queueUnlocked
              split <;> omega
            have htoNat : (q'.lockCount b).toNat = if (s.queue.lockCount b).toNat < Fintype.card T then
                (s.queue.lockCount b).toNat + 1 else (s.queue.lockCount b).toNat := by
              rw [hcount]
              split <;> split <;> omega
            simp only [Sys.room, if_neg hne, hw, htoNat]
          rw [heq]
          exact (Move.count (by simp [Sys.room, hu]) hint.more).moves
      · obtain rfl : b = !a := Bool.eq_not_iff.mpr hba
        have heq : Sys.room { s with queue := q', history := hist } (!a) = { s.room (!a) with avail := q'.avail (!a) } := by
          simp [Sys.room, hint.other, hint.otherLock]
        rw [heq]
        exact (Move.fewer hint.less).moves

end

end

end SpeakingClock.Kernel
