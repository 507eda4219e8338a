import SpeakingClock.Kernel.Scheduler
import SpeakingClock.Theorems.Kernel.Sequences

/-! What the lists of the scheduler hold: each task is in the list that its last event says, under its time to
    wake. Each function of `tasks.c` that moves a task keeps that, and makes a move of the agenda whose turns
    are those of the ready lists. -/

namespace SpeakingClock.Kernel
open Function (update)
open Turns (TaskEvent waiting Move Moves)

/-! ### The bits of `uxTopReadyPriority` -/

theorem getLsbD_portRecordReadyPriority (p : Fin configMaxPriorities) (b : BitVec 32) (i : Nat) :
    (portRecordReadyPriority p b).getLsbD i = true ↔ b.getLsbD i = true ∨ i = p := by
  have hp : p.val < 5 := p.isLt
  simp only [portRecordReadyPriority, BitVec.getLsbD_or, BitVec.getLsbD_shiftLeft, BitVec.getLsbD_one]
  simp only [Bool.or_eq_true, Bool.and_eq_true, decide_eq_true_eq, Bool.not_eq_true', decide_eq_false_iff_not]
  exact or_congr_right (by omega)

theorem getLsbD_portResetReadyPriority (p : Fin configMaxPriorities) (b : BitVec 32) (i : Nat) :
    (portResetReadyPriority p b).getLsbD i = true ↔ b.getLsbD i = true ∧ i ≠ p := by
  have hp : p.val < 5 := p.isLt
  have hb : b.getLsbD i = true → i < 32 := fun h => BitVec.lt_of_getLsbD h
  simp only [portResetReadyPriority, BitVec.getLsbD_and, BitVec.getLsbD_not, BitVec.getLsbD_shiftLeft, BitVec.getLsbD_one]
  simp
  intro h
  have := hb h
  omega

/-- `portGET_HIGHEST_PRIORITY` is the highest bit. -/
theorem portGetHighestPriority_spec {b : BitVec 32} {i : Nat} (hi : b.getLsbD i = true) :
    b.getLsbD (portGetHighestPriority b).toNat = true ∧
      ∀ j, (portGetHighestPriority b).toNat < j → b.getLsbD j = false := by
  have hb : b ≠ 0#32 := by
    rintro rfl
    simp at hi
  have hclz : b.clz.toNat < 32 := BitVec.clz_lt_iff_ne_zero.mpr hb
  have hval : (portGetHighestPriority b).toNat = 31 - b.clz.toNat := by
    unfold portGetHighestPriority
    rw [BitVec.toNat_sub_of_le]
    · rfl
    · rw [BitVec.le_def]
      exact Nat.le_of_lt_succ hclz
  rw [hval]
  refine ⟨BitVec.getLsbD_true_clz_of_ne_zero (by decide) hb, fun j hj => ?_⟩
  have hfalse := BitVec.getLsbD_false_of_clzAuxRec (x := b) (n := 31) (fun k hk => BitVec.getLsbD_of_ge b k (by omega))
    (j - (32 - b.clz.toNat))
  change b.getLsbD (32 - b.clz.toNat + (j - (32 - b.clz.toNat))) = false at hfalse
  rwa [Nat.add_sub_cancel' (by omega)] at hfalse

/-- The bits, after a ready list got an item. -/
theorem record_top {ι ε : Type} {x y : Lists (Item ι) (ListId ε)} [DecidableEq ι] [DecidableEq ε] {n : Item ι}
    {p : Fin configMaxPriorities} {b : BitVec 32} (hput : x.Put n (.ready p) y)
    (htop : ∀ i, b.getLsbD i = true ↔ ∃ h : i < configMaxPriorities, x.items (.ready ⟨i, h⟩) ≠ []) (i : Nat) :
    (portRecordReadyPriority p b).getLsbD i = true ↔ ∃ h : i < configMaxPriorities, y.items (.ready ⟨i, h⟩) ≠ [] := by
  have hmem := y.mem_items.mpr hput.container_self
  rw [getLsbD_portRecordReadyPriority, htop]
  constructor
  · rintro (⟨hi, hne⟩ | rfl)
    · refine ⟨hi, fun hnil => hne ?_⟩
      by_cases hp : (⟨i, hi⟩ : Fin configMaxPriorities) = p
      · rw [← hp, hnil] at hmem
        cases hmem
      · rwa [hput.items _ (by simpa using hp)] at hnil
    · exact ⟨p.isLt, List.ne_nil_of_mem hmem⟩
  · rintro ⟨hi, hne⟩
    by_cases hp : (⟨i, hi⟩ : Fin configMaxPriorities) = p
    · exact .inr (congrArg Fin.val hp)
    · rw [hput.items _ (by simpa using hp)] at hne
      exact .inl ⟨hi, hne⟩

/-! ### Owners and times -/

theorem ite_lt_le (a b : UInt32) : (if a < b then a else b) ≤ a ∧ (if a < b then a else b) ≤ b := by
  split
  · rename_i hlt
    exact ⟨UInt32.le_refl a, UInt32.le_of_lt hlt⟩
  · rename_i hge
    exact ⟨UInt32.not_lt.mp hge, UInt32.le_refl b⟩

theorem map_owner_erase {ι : Type} [DecidableEq ι] {is : List (Item ι)} (his : ∀ i ∈ is, ∃ t, i = .state t) (t : ι) :
    (is.erase (.state t)).map Item.owner = (is.map Item.owner).erase t := by
  induction is with
  | nil => rfl
  | cons i is ih =>
    obtain ⟨u, rfl⟩ := his i List.mem_cons_self
    have ih := ih fun i hi => his i (List.mem_cons_of_mem _ hi)
    by_cases hu : u = t
    · subst hu
      simp [Item.owner]
    · simp only [List.map_cons, Item.owner, List.erase_cons_tail, hu, ih, beq_iff_eq, Item.state.injEq, not_false_eq_true]

variable {σ ι ε : Type} [DecidableEq ι]

namespace Sched

/-! ### The invariant -/

/-- The turns of the ready lists, and what happened. -/
def agenda (s : Sched σ ι ε) (x : Lists (Item ι) (ListId ε)) : Turns.Agenda ι (Fin configMaxPriorities) :=
  ⟨fun p => (x.turns (.ready p)).map Item.owner, s.history⟩

/-- A task that waits for `n` ticks, `k` of which were counted, is in the list of its time to wake: the overflow
    list, if the tick count has to wrap before. With `lax`, its time may have come. -/
def Timed (lax : Nat) (s : Sched σ ι ε) (x : Lists (Item ι) (ListId ε)) (t : ι) (l : ListId ε) (n k : Nat) : Prop :=
  l = s.pxDelayedTaskList ∧ (x.xItemValue (.state t)).toNat + k = s.xTickCount.toNat + n ∧ k < n + lax ∨
  l = s.pxOverflowDelayedTaskList ∧ (x.xItemValue (.state t)).toNat + 2 ^ 32 + k = s.xTickCount.toNat + n

/-- Where the state item of a task belongs, and with which value. -/
def Filed (lax : Nat) (s : Sched σ ι ε) (x : Lists (Item ι) (ListId ε)) (t : ι) (l : ListId ε) : Prop :=
  match waiting t s.history with
  | none => l = .ready (s.uxPriority t)
  | some (none, _) => l = .suspended
  | some (some n, k) => Timed lax s x t l n k

/-- The lists and what the scheduler keeps beside them. The state item of the task in `hand` is in no list, and
    the task `loose` is in an event list before it waits. -/
structure Inv (R : σ → Lists (Item ι) (ListId ε) → Prop) (hand loose : Option ι) (lax : Nat) (s : Sched σ ι ε)
    (x : Lists (Item ι) (ListId ε)) : Prop where
  lists : R s.lists x
  held : ∀ t, hand = some t → x.pxContainer (.state t) = none
  filed : ∀ t, hand ≠ some t → ∃ l, x.pxContainer (.state t) = some l ∧ Filed lax s x t l
  event : ∀ t l, x.pxContainer (.event t) = some l → l = .pendingReady ∨ ∃ e, l = .event e
  waits : ∀ t, x.pxContainer (.event t) ≠ none → waiting t s.history ≠ none ∨ loose = some t
  delayed : s.pxDelayedTaskList = .delayed1 ∧ s.pxOverflowDelayedTaskList = .delayed2 ∨
    s.pxDelayedTaskList = .delayed2 ∧ s.pxOverflowDelayedTaskList = .delayed1
  ticks : s.xTickCount = UInt32.ofNat (s.history.count .tick)
  top : ∀ i, s.uxTopReadyPriority.getLsbD i = true ↔ ∃ h : i < configMaxPriorities, x.items (.ready ⟨i, h⟩) ≠ []
  sorted : x.Sorted .delayed1 ∧ x.Sorted .delayed2
  unblock : ∀ i ∈ x.items s.pxDelayedTaskList, s.xNextTaskUnblockTime ≤ x.xItemValue i

/-- The state after a task got its place in a ready list. -/
def entered (s : Sched σ ι ε) (t : ι) (e : TaskEvent ι) (lists : σ) : Sched σ ι ε :=
  { s with
    lists := lists
    uxTopReadyPriority := portRecordReadyPriority (s.uxPriority t) s.uxTopReadyPriority
    history := s.history ++ [e] }

/-- The state after the running task was put where it waits. -/
def parked (s : Sched σ ι ε) (ticks : Option Nat) (lists : σ) (xNextTaskUnblockTime : UInt32) : Sched σ ι ε :=
  { s with
    lists := lists
    xNextTaskUnblockTime := xNextTaskUnblockTime
    history := s.history ++ [.blocked s.pxCurrentTCB ticks] }

/-- What no move changes; `k` ticks are counted. -/
structure Kept (k : Nat) (s s' : Sched σ ι ε) : Prop where
  uxPriority : s'.uxPriority = s.uxPriority
  control : s'.control = s.control
  pxCurrentTCB : s'.pxCurrentTCB = s.pxCurrentTCB
  xPendedTicks : s'.xPendedTicks = s.xPendedTicks
  uxSchedulerSuspended : s'.uxSchedulerSuspended = s.uxSchedulerSuspended
  pendSV : s'.pendSV = s.pendSV
  ticks : s'.history.count .tick = s.history.count .tick + k
  sysTicks : s'.history.count .sysTick = s.history.count .sysTick

namespace Kept
variable {k k' : Nat} {s s' s'' : Sched σ ι ε}

theorem refl (s : Sched σ ι ε) : Kept 0 s s := ⟨rfl, rfl, rfl, rfl, rfl, rfl, rfl, rfl⟩

theorem trans (h : Kept k s s') (h' : Kept k' s' s'') : Kept (k + k') s s'' where
  uxPriority := h'.uxPriority.trans h.uxPriority
  control := h'.control.trans h.control
  pxCurrentTCB := h'.pxCurrentTCB.trans h.pxCurrentTCB
  xPendedTicks := h'.xPendedTicks.trans h.xPendedTicks
  uxSchedulerSuspended := h'.uxSchedulerSuspended.trans h.uxSchedulerSuspended
  pendSV := h'.pendSV.trans h.pendSV
  ticks := by rw [h'.ticks, h.ticks, Nat.add_assoc]
  sysTicks := h'.sysTicks.trans h.sysTicks

end Kept

/-- No ready task has a higher priority than the one that runs. -/
def Leads (s : Sched σ ι ε) : Prop := ∀ t, waiting t s.history = none → s.uxPriority t ≤ s.uxPriority s.pxCurrentTCB

variable {R : σ → Lists (Item ι) (ListId ε) → Prop} {hand loose : Option ι} {lax lax' : Nat} {s s' : Sched σ ι ε}
  {x y : Lists (Item ι) (ListId ε)} {t u : ι} {l : ListId ε} {h' : σ}

theorem filed_ready (hw : waiting t s.history = none) : Filed lax s x t l ↔ l = .ready (s.uxPriority t) := by
  unfold Filed
  rw [hw]

theorem filed_suspended {k : Nat} (hw : waiting t s.history = some (none, k)) : Filed lax s x t l ↔ l = .suspended := by
  unfold Filed
  rw [hw]

theorem filed_timed {n k : Nat} (hw : waiting t s.history = some (some n, k)) :
    Filed lax s x t l ↔ Timed lax s x t l n k := by
  unfold Filed
  rw [hw]

theorem Filed.cases (h : Filed lax s x t l) : waiting t s.history = none ∧ l = .ready (s.uxPriority t) ∨
    (∃ k, waiting t s.history = some (none, k) ∧ l = .suspended) ∨
    ∃ n k, waiting t s.history = some (some n, k) ∧ Timed lax s x t l n k := by
  unfold Filed at h
  split at h
  · rename_i hw
    exact .inl ⟨hw, h⟩
  · rename_i k hw
    exact .inr (.inl ⟨k, hw, h⟩)
  · rename_i n k hw
    exact .inr (.inr ⟨n, k, hw, h⟩)

/-- Where a task belongs depends on its waiting, its value, and the clock. -/
theorem Filed.congr (h : Filed lax s x t l) (hwaiting : waiting t s'.history = waiting t s.history)
    (hvalue : y.xItemValue (.state t) = x.xItemValue (.state t)) (hprio : s'.uxPriority = s.uxPriority)
    (htick : s'.xTickCount = s.xTickCount) (hdelayed : s'.pxDelayedTaskList = s.pxDelayedTaskList)
    (hoverflow : s'.pxOverflowDelayedTaskList = s.pxOverflowDelayedTaskList) : Filed lax s' y t l := by
  unfold Filed Timed at h ⊢
  rw [hwaiting, hvalue, hprio, htick, hdelayed, hoverflow]
  exact h

/-- When `j` more ticks are counted, only the tasks that wait for a time have to be looked at. -/
theorem Filed.later {j : Nat} (h : Filed lax s x t l)
    (hwaiting : waiting t s'.history = (waiting t s.history).map fun w => (w.1, w.2 + j))
    (hprio : s'.uxPriority = s.uxPriority)
    (htimed : ∀ n k, Timed lax s x t l n k → Timed lax' s' y t l n (k + j)) : Filed lax' s' y t l := by
  rcases h.cases with ⟨hw, rfl⟩ | ⟨k, hw, rfl⟩ | ⟨n, k, hw, ht⟩
  · rw [hw, Option.map_none] at hwaiting
    rw [filed_ready hwaiting, hprio]
  · rw [hw, Option.map_some] at hwaiting
    rw [filed_suspended hwaiting]
  · rw [hw, Option.map_some] at hwaiting
    exact (filed_timed hwaiting).mpr (htimed n k ht)

namespace Inv

/-- The items of a list that is not for events are state items. -/
theorem state_of_mem (h : Inv R hand loose lax s x) {i : Item ι} (hi : i ∈ x.items l)
    (hpending : l ≠ .pendingReady) (hevent : ∀ e, l ≠ .event e) : ∃ t, i = .state t := by
  cases i with
  | state t => exact ⟨t, rfl⟩
  | event t =>
    rw [x.mem_items] at hi
    rcases h.event t l hi with he | ⟨e, he⟩
    · exact absurd he hpending
    · exact absurd he (hevent e)

theorem state_of_ready (h : Inv R hand loose lax s x) {p : Fin configMaxPriorities} {i : Item ι}
    (hi : i ∈ x.items (.ready p)) : ∃ t, i = .state t := h.state_of_mem hi (by simp) (by simp)

theorem state_of_delayed (h : Inv R hand loose lax s x) {i : Item ι} (hi : i ∈ x.items s.pxDelayedTaskList) :
    ∃ t, i = .state t := by
  rcases h.delayed with ⟨hd, -⟩ | ⟨hd, -⟩ <;> exact h.state_of_mem hi (by simp [hd]) (by simp [hd])

/-- The lists of the tasks that wait for a time are neither ready lists nor event lists. -/
theorem timed_list (h : Inv R hand loose lax s x) {n k : Nat} (ht : Timed lax s x t l n k) :
    l = .delayed1 ∨ l = .delayed2 := by
  rcases h.delayed with ⟨hd, ho⟩ | ⟨hd, ho⟩ <;> rcases ht with ⟨rfl, -⟩ | ⟨rfl, -⟩ <;> simp [hd, ho]

/-- A task is in a ready list just when it does not wait. -/
theorem ready_iff (h : Inv R none loose lax s x) {p : Fin configMaxPriorities} :
    x.pxContainer (.state t) = some (.ready p) ↔ p = s.uxPriority t ∧ waiting t s.history = none := by
  obtain ⟨l, hl, hfiled⟩ := h.filed t (by simp)
  rw [hl]
  rcases hfiled.cases with ⟨hw, rfl⟩ | ⟨k, hw, rfl⟩ | ⟨n, k, hw, ht⟩
  · simp [hw, eq_comm]
  · simp [hw]
  · rcases h.timed_list ht with rfl | rfl <;> simp [hw]

/-- When the time of a task in the delayed list comes. -/
theorem soon (h : Inv R none loose lax s x) (ht : x.pxContainer (.state t) = some s.pxDelayedTaskList) :
    ∃ n k, waiting t s.history = some (some n, k) ∧
      (x.xItemValue (.state t)).toNat + k = s.xTickCount.toNat + n ∧ k < n + lax := by
  obtain ⟨l, hl, hfiled⟩ := h.filed t (by simp)
  obtain rfl := Option.some.inj (ht.symm.trans hl)
  rcases hfiled.cases with ⟨-, he⟩ | ⟨k, -, he⟩ | ⟨n, k, hw, ⟨-, hvalue, hk⟩ | ⟨he, -⟩⟩
  · rcases h.delayed with ⟨hd, -⟩ | ⟨hd, -⟩ <;> simp [hd] at he
  · rcases h.delayed with ⟨hd, -⟩ | ⟨hd, -⟩ <;> simp [hd] at he
  · exact ⟨n, k, hw, hvalue, hk⟩
  · rcases h.delayed with ⟨hd, ho⟩ | ⟨hd, ho⟩ <;> simp [hd, ho] at he

/-- The items of the event lists are those of tasks that wait. -/
theorem event_of_mem (h : Inv R none none lax s x) {i : Item ι} (hi : i ∈ x.items l)
    (hl : l = .pendingReady ∨ ∃ e, l = .event e) : ∃ t, i = .event t ∧ waiting t s.history ≠ none := by
  rw [x.mem_items] at hi
  cases i with
  | event t => exact ⟨t, rfl, (h.waits t (by rw [hi]; exact Option.some_ne_none l)).resolve_right (by simp)⟩
  | state t =>
    obtain ⟨k, hk, hfiled⟩ := h.filed t (by simp)
    obtain rfl := Option.some.inj (hi.symm.trans hk)
    exfalso
    rcases hfiled.cases with ⟨-, he⟩ | ⟨k, -, he⟩ | ⟨n, k, -, ht⟩
    · rcases hl with rfl | ⟨e, rfl⟩ <;> cases he
    · rcases hl with rfl | ⟨e, rfl⟩ <;> cases he
    · have hlist := h.timed_list ht
      rcases hl with rfl | ⟨e, rfl⟩ <;> simp at hlist

theorem event_free (h : Inv R none none lax s x) (hready : waiting t s.history = none) :
    x.pxContainer (.event t) = none := by
  by_contra hne
  exact (h.waits t hne).elim (fun hw => hw hready) (by simp)

/-- A state item is taken from its list. -/
theorem take (h : Inv R none loose lax s x) (htook : x.Took (.state t) y) (hr : R h' y) {b : BitVec 32}
    (htop : ∀ i, b.getLsbD i = true ↔ ∃ h : i < configMaxPriorities, y.items (.ready ⟨i, h⟩) ≠ []) :
    Inv R (some t) loose lax { s with lists := h', uxTopReadyPriority := b } y where
  lists := hr
  held u hu := by
    cases hu
    exact htook.container_self
  filed u hu := by
    have hne : Item.state u ≠ .state t := fun he => hu (by cases he; rfl)
    obtain ⟨l, hl, hfiled⟩ := h.filed u (by simp)
    exact ⟨l, (htook.container_of_ne hne).trans hl, hfiled.congr rfl (congrFun htook.value _) rfl rfl rfl rfl⟩
  event u l hl := by
    rw [htook.container_of_ne (by simp)] at hl
    exact h.event u l hl
  waits u hu := by
    rw [htook.container_of_ne (by simp)] at hu
    exact h.waits u hu
  delayed := h.delayed
  ticks := h.ticks
  top := htop
  sorted := ⟨htook.sorted h.sorted.1, htook.sorted h.sorted.2⟩
  unblock i hi := by
    rw [htook.items] at hi
    rw [htook.value]
    exact h.unblock i (List.mem_of_mem_erase hi)

/-- An event item is taken from its list. -/
theorem took (h : Inv R hand loose lax s x) (htook : x.Took (.event t) y) (hr : R h' y) :
    Inv R hand loose lax { s with lists := h' } y where
  lists := hr
  held u hu := by
    rw [htook.container_of_ne (by simp)]
    exact h.held u hu
  filed u hu := by
    obtain ⟨k, hk, hfiled⟩ := h.filed u hu
    exact ⟨k, (htook.container_of_ne (by simp)).trans hk, hfiled.congr rfl (congrFun htook.value _) rfl rfl rfl rfl⟩
  event u k hk := by
    by_cases hut : u = t
    · rw [hut, htook.container_self] at hk
      cases hk
    · rw [htook.container_of_ne (by simpa using hut)] at hk
      exact h.event u k hk
  waits u hu := by
    by_cases hut : u = t
    · rw [hut] at hu
      exact absurd htook.container_self hu
    · rw [htook.container_of_ne (by simpa using hut)] at hu
      exact h.waits u hu
  delayed := h.delayed
  ticks := h.ticks
  top i := by
    have hready (p : Fin configMaxPriorities) : y.items (.ready p) = x.items (.ready p) := by
      refine htook.items_of_ne fun he => ?_
      rcases h.event t _ he with he | ⟨e, he⟩ <;> cases he
    simp only [hready]
    exact h.top i
  sorted := ⟨htook.sorted h.sorted.1, htook.sorted h.sorted.2⟩
  unblock i hi := by
    rw [htook.items] at hi
    rw [htook.value]
    exact h.unblock i (List.mem_of_mem_erase hi)

/-- An event item is put into a list. -/
theorem putEvent (h : Inv R hand none lax s x) (hput : x.Put (.event t) l y) (hr : R h' y)
    (hl : l = .pendingReady ∨ ∃ e, l = .event e) (hwaits : waiting t s.history ≠ none ∨ loose = some t) :
    Inv R hand loose lax { s with lists := h' } y := by
  have hready (p : Fin configMaxPriorities) : ListId.ready p ≠ l := by
    rcases hl with rfl | ⟨e, rfl⟩ <;> exact fun he => by cases he
  have hdelayed : ListId.delayed1 ≠ l ∧ ListId.delayed2 ≠ l := by
    rcases hl with rfl | ⟨e, rfl⟩ <;> exact ⟨(fun he => by cases he), fun he => by cases he⟩
  have hne : s.pxDelayedTaskList ≠ l := by
    rcases h.delayed with ⟨hd, -⟩ | ⟨hd, -⟩ <;> rw [hd]
    · exact hdelayed.1
    · exact hdelayed.2
  exact {
    lists := hr
    held := fun u hu => by
      rw [hput.container_of_ne (by simp)]
      exact h.held u hu
    filed := fun u hu => by
      obtain ⟨k, hk, hfiled⟩ := h.filed u hu
      exact ⟨k, (hput.container_of_ne (by simp)).trans hk, hfiled.congr rfl (congrFun hput.value _) rfl rfl rfl rfl⟩
    event := fun u k hk => by
      by_cases hut : u = t
      · rw [hut, hput.container_self] at hk
        cases hk
        exact hl
      · rw [hput.container_of_ne (by simpa using hut)] at hk
        exact h.event u k hk
    waits := fun u hu => by
      by_cases hut : u = t
      · rw [hut]
        exact hwaits
      · rw [hput.container_of_ne (by simpa using hut)] at hu
        exact .inl ((h.waits u hu).resolve_right (by simp))
    delayed := h.delayed
    ticks := h.ticks
    top := fun i => by
      simp only [hput.items _ (hready _)]
      exact h.top i
    sorted := ⟨hput.sorted hdelayed.1 h.sorted.1, hput.sorted hdelayed.2 h.sorted.2⟩
    unblock := fun i hi => by
      rw [hput.value]
      exact h.unblock i (by rwa [hput.items _ hne] at hi) }

/-- The state item in hand is put into a list, after an event that says which one. -/
theorem put (h : Inv R (some t) loose lax s x) (hput : x.Put (.state t) l y) (hr : R h' y) {e : TaskEvent ι}
    {b : BitVec 32} {v : UInt32} (hothers : ∀ u ≠ t, waiting u (s.history ++ [e]) = waiting u s.history)
    (htick : e ≠ .tick) (hloose : ∀ u, loose = some u → u = t)
    (hevent : x.pxContainer (.event t) ≠ none → waiting t (s.history ++ [e]) ≠ none)
    (hfiled : Filed lax { s with history := s.history ++ [e] } y t l)
    (htop : ∀ i, b.getLsbD i = true ↔ ∃ h : i < configMaxPriorities, y.items (.ready ⟨i, h⟩) ≠ [])
    (hsorted : y.Sorted .delayed1 ∧ y.Sorted .delayed2) (hunblock : ∀ i ∈ y.items s.pxDelayedTaskList, v ≤ y.xItemValue i) :
    Inv R none none lax
      { s with lists := h', uxTopReadyPriority := b, xNextTaskUnblockTime := v, history := s.history ++ [e] } y where
  lists := hr
  held _ hu := by cases hu
  filed u _ := by
    by_cases hu : u = t
    · subst hu
      exact ⟨l, hput.container_self, hfiled⟩
    · obtain ⟨k, hk, hfiled⟩ := h.filed u fun he => hu (Option.some.inj he).symm
      exact ⟨k, (hput.container_of_ne (by simpa using hu)).trans hk,
        hfiled.congr (hothers u hu) (congrFun hput.value _) rfl rfl rfl rfl⟩
  event u k hk := by
    rw [hput.container_of_ne (by simp)] at hk
    exact h.event u k hk
  waits u hu := by
    rw [hput.container_of_ne (by simp)] at hu
    left
    by_cases hut : u = t
    · subst hut
      exact hevent hu
    · change waiting u (s.history ++ [e]) ≠ none
      rw [hothers u hut]
      exact (h.waits u hu).resolve_right fun he => hut (hloose u he)
  delayed := h.delayed
  ticks := by
    rw [h.ticks, List.count_append, List.count_singleton, beq_false_of_ne htick]
    rfl
  top := htop
  sorted := hsorted
  unblock := hunblock

/-- The task that left its ready list is put where it waits. -/
theorem park (h : Inv R (some t) loose 0 s x) (ht : s.pxCurrentTCB = t) (hloose : ∀ u, loose = some u → u = t)
    (hput : x.Put (.state t) l y) (hr : R h' y) {m : Option Nat} {v : UInt32}
    (hl : ∀ p, ListId.ready p ≠ l) (hsorted : y.Sorted .delayed1 ∧ y.Sorted .delayed2)
    (hfiled : Filed 0 { s with history := s.history ++ [.blocked t m] } y t l)
    (hunblock : ∀ i ∈ y.items s.pxDelayedTaskList, v ≤ y.xItemValue i) : Inv R none none 0 (s.parked m h' v) y := by
  subst ht
  refine h.put hput hr (fun u hu => ?_) (fun he => by cases he) hloose (fun _ => ?_) hfiled (fun i => ?_) hsorted hunblock
  · rw [Turns.waiting_blocked, if_neg hu.symm]
  · rw [Turns.waiting_blocked, if_pos rfl]
    exact Option.some_ne_none _
  · simp only [hput.items _ (hl _)]
    exact h.top i

/-- It leaves its turns. -/
theorem turns_leave (h : Inv R none loose 0 s x) (hready : waiting t s.history = none) (htook : x.Took (.state t) y) :
    (fun p => (y.turns (.ready p)).map Item.owner) =
      update (s.agenda x).turns (s.uxPriority t) (((s.agenda x).turns (s.uxPriority t)).erase t) := by
  have hin := h.ready_iff.mpr ⟨rfl, hready⟩
  funext p
  by_cases hp : p = s.uxPriority t
  · subst hp
    rw [Function.update_self, htook.turns, map_owner_erase fun i hi => h.state_of_ready (x.mem_turns.mp hi)]
    rfl
  · rw [Function.update_of_ne hp, htook.turns_of_ne (by simpa [hin] using Ne.symm hp)]
    rfl

end Inv

/-- The running task waits. -/
structure Blocks (R : σ → Lists (Item ι) (ListId ε) → Prop) (s : Sched σ ι ε) (x : Lists (Item ι) (ListId ε))
    (s' : Sched σ ι ε) (y : Lists (Item ι) (ListId ε)) : Prop where
  inv : Inv R none none 0 s' y
  move : Move s.uxPriority (s.agenda x) (s'.agenda y)
  kept : Kept 0 s s'
  xYieldPending : s'.xYieldPending = s.xYieldPending
  waits : waiting s.pxCurrentTCB s'.history ≠ none
  others : ∀ u ≠ s.pxCurrentTCB, waiting u s'.history = waiting u s.history

/-! ### What the functions do -/

variable [DecidableEq ε] [ListImpl σ (Item ι) (ListId ε)] [Simulates R]

namespace Inv

theorem takeState (h : Inv R none loose lax s x) (hin : x.pxContainer (.state t) = some l)
    (hready : ∀ p, l ≠ .ready p) : ∃ h' y, s.listRemoveItem (.state t) = some { s with lists := h' } ∧
      x.Took (.state t) y ∧ Inv R (some t) loose lax { s with lists := h' } y := by
  obtain ⟨h', y, hrun, hr, htook⟩ := Lists.took_of h.lists hin
  refine ⟨h', y, by unfold listRemoveItem; rw [hrun]; rfl, htook, h.take htook hr fun i => ?_⟩
  have hitems (p : Fin configMaxPriorities) : y.items (.ready p) = x.items (.ready p) :=
    htook.items_of_ne fun he => hready p (Option.some.inj (hin.symm.trans he))
  simp only [hitems]
  exact h.top i

theorem takeEvent (h : Inv R hand loose lax s x) (hin : x.pxContainer (.event t) = some l) :
    ∃ h' y, s.listRemoveItem (.event t) = some { s with lists := h' } ∧ x.Took (.event t) y ∧
      Inv R hand loose lax { s with lists := h' } y := by
  obtain ⟨h', y, hrun, hr, htook⟩ := Lists.took_of h.lists hin
  exact ⟨h', y, by unfold listRemoveItem; rw [hrun]; rfl, htook, h.took htook hr⟩

theorem removeFromEvent (h : Inv R hand loose lax s x) (t : ι) : ∃ h' y, s.removeFromEvent t = some { s with lists := h' } ∧
    x.Took (.event t) y ∧ Inv R hand loose lax { s with lists := h' } y := by
  unfold Sched.removeFromEvent
  rw [Lists.container_of h.lists]
  cases hin : x.pxContainer (.event t) with
  | none => exact ⟨s.lists, x, rfl, Lists.took_self hin, h⟩
  | some l => exact h.takeEvent hin

/-- `prvAddTaskToReadyList`: a task whose time has come, or that is woken, gets its place. -/
theorem addReady (h : Inv R (some t) none lax s x) (hevent : x.pxContainer (.event t) = none) {e : TaskEvent ι}
    (he : e = .timedOut t ∧ (∃ n, waiting t s.history = some (some n, n)) ∨
      e = .readied t ∧ waiting t s.history ≠ none) :
    ∃ h' y, (s.log e).prvAddTaskToReadyList t = some (s.entered t e h') ∧ Inv R none none lax (s.entered t e h') y ∧
      Move s.uxPriority (s.agenda x) ((s.entered t e h').agenda y) ∧ x.Put (.state t) (.ready (s.uxPriority t)) y := by
  have hwait (u : ι) : waiting u (s.history ++ [e]) = if t = u then none else waiting u s.history := by
    rcases he with ⟨rfl, -⟩ | ⟨rfl, -⟩
    · exact Turns.waiting_timedOut
    · exact Turns.waiting_readied
  obtain ⟨h', y, hrun, hr, hput, us, vs, hx, hy⟩ :=
    Lists.putEnd_of h.lists (h.held t rfl) (.ready (s.uxPriority t))
  have hagenda : (s.entered t e h').agenda y = ⟨update (s.agenda x).turns (s.uxPriority t)
      (us.map Item.owner ++ t :: vs.map Item.owner), (s.agenda x).history ++ [e]⟩ := by
    refine congrArg₂ Turns.Agenda.mk (funext fun p => ?_) rfl
    by_cases hp : p = s.uxPriority t
    · subst hp
      rw [Function.update_self, hy, List.map_append]
      rfl
    · rw [Function.update_of_ne hp, hput.turns _ (by simpa using hp)]
      rfl
  have hcut : (s.agenda x).turns (s.uxPriority t) = us.map Item.owner ++ vs.map Item.owner := by
    rw [← List.map_append, ← hx]
    rfl
  refine ⟨h', y, ?_, ?_, ?_, hput⟩
  · unfold prvAddTaskToReadyList
    have hrun : ListImpl.vListInsertEnd (s.log e).lists (.ready ((s.log e).uxPriority t)) (Item.state t) = some h' := hrun
    rw [hrun]
    rfl
  · refine h.put hput hr (fun u hu => ?_) ?_ (by simp) (fun hne => absurd hevent hne) ?_ (record_top hput h.top)
      ⟨hput.sorted (by simp) h.sorted.1, hput.sorted (by simp) h.sorted.2⟩ fun i hi => ?_
    · rw [hwait, if_neg hu.symm]
    · rcases he with ⟨rfl, -⟩ | ⟨rfl, -⟩ <;> exact fun he => by cases he
    · exact (filed_ready ((hwait t).trans (if_pos rfl))).mpr rfl
    · have hne : s.pxDelayedTaskList ≠ .ready (s.uxPriority t) := by
        rcases h.delayed with ⟨hd, -⟩ | ⟨hd, -⟩ <;> simp [hd]
      rw [hput.value]
      exact h.unblock i (by rwa [hput.items _ hne] at hi)
  · rw [hagenda]
    rcases he with ⟨rfl, n, hdue⟩ | ⟨rfl, hwaits⟩
    · exact .timeOut t n hdue hcut
    · exact .wake t hwaits hcut

/-- The value of the state item in hand is set. -/
theorem value (h : Inv R (some t) loose lax s x) (v : UInt32) :
    Inv R (some t) loose lax { s with lists := ListImpl.listSetListItemValue s.lists (.state t) v }
      (ListImpl.listSetListItemValue x (.state t) v) := by
  have hvalue {k : ListId ε} {i : Item ι} (hi : i ∈ x.items k) :
      (ListImpl.listSetListItemValue x (.state t) v).xItemValue i = x.xItemValue i := by
    refine Function.update_of_ne ?_ v x.xItemValue
    rintro rfl
    rw [x.mem_items, h.held t rfl] at hi
    cases hi
  have hsorted {k : ListId ε} (hs : x.Sorted k) : (ListImpl.listSetListItemValue x (.state t) v).Sorted k := by
    refine List.Pairwise.imp_of_mem (fun hi hj hle => ?_) hs
    rw [hvalue hi, hvalue hj]
    exact hle
  refine ⟨Simulates.listSetListItemValue h.lists, h.held, fun u hu => ?_, h.event, h.waits, h.delayed, h.ticks, h.top,
    ⟨hsorted h.sorted.1, hsorted h.sorted.2⟩, fun i hi => ?_⟩
  · obtain ⟨l, hl, hfiled⟩ := h.filed u hu
    exact ⟨l, hl, hfiled.congr rfl (hvalue (x.mem_items.mpr hl)) rfl rfl rfl rfl⟩
  · rw [hvalue hi]
    exact h.unblock i hi

theorem leaveReadyList (h : Inv R none loose 0 s x) (hready : waiting s.pxCurrentTCB s.history = none) :
    ∃ h' b y, s.leaveReadyList = some { s with lists := h', uxTopReadyPriority := b } ∧
      Inv R (some s.pxCurrentTCB) loose 0 { s with lists := h', uxTopReadyPriority := b } y ∧
      x.Took (.state s.pxCurrentTCB) y := by
  obtain ⟨l, hin, hfiled⟩ := h.filed s.pxCurrentTCB (by simp)
  obtain rfl := (filed_ready hready).mp hfiled
  obtain ⟨h', y, hrun, hr, htook⟩ := Lists.took_of h.lists hin
  refine ⟨h', _, y, by unfold Sched.leaveReadyList; rw [hrun]; rfl, h.take htook hr fun i => ?_, htook⟩
  have hother {i : Nat} (hi : i < configMaxPriorities) (hne : i ≠ s.uxPriority s.pxCurrentTCB) :
      y.items (.ready ⟨i, hi⟩) = x.items (.ready ⟨i, hi⟩) := by
    refine htook.items_of_ne fun he => hne ?_
    rw [hin, Option.some.injEq, ListId.ready.injEq] at he
    exact congrArg Fin.val he.symm
  split
  · rename_i hnil
    rw [List.length_eq_zero_iff] at hnil
    rw [getLsbD_portResetReadyPriority, h.top]
    constructor
    · rintro ⟨⟨hi, hx⟩, hne⟩
      exact ⟨hi, by rwa [hother hi hne]⟩
    · rintro ⟨hi, hy⟩
      have hne : i ≠ s.uxPriority s.pxCurrentTCB := by
        rintro rfl
        exact hy hnil
      exact ⟨⟨hi, by rwa [hother hi hne] at hy⟩, hne⟩
  · rename_i hcons
    rw [h.top]
    refine exists_congr fun hi => ?_
    by_cases hne : i = s.uxPriority s.pxCurrentTCB
    · subst hne
      refine iff_of_true (List.ne_nil_of_mem (x.mem_items.mpr hin)) fun hnil => hcons ?_
      rw [List.length_eq_zero_iff]
      exact hnil
    · rw [hother hi hne]

theorem insertSuspended (h : Inv R (some t) loose 0 s x) (ht : s.pxCurrentTCB = t) (hloose : ∀ u, loose = some u → u = t) :
    ∃ h' y, (s.log (.blocked t none)).insertSuspended = some (s.parked none h' s.xNextTaskUnblockTime) ∧
      Inv R none none 0 (s.parked none h' s.xNextTaskUnblockTime) y ∧ ∀ p, y.turns (.ready p) = x.turns (.ready p) := by
  obtain ⟨h', y, hrun, hr, hput, -⟩ := Lists.putEnd_of h.lists (h.held t rfl) .suspended
  have hdelayed : s.pxDelayedTaskList ≠ .suspended := by
    rcases h.delayed with ⟨hd, -⟩ | ⟨hd, -⟩ <;> simp [hd]
  have hfiled : Filed 0 { s with history := s.history ++ [.blocked t none] } y t .suspended :=
    (filed_suspended (Turns.waiting_blocked.trans (if_pos rfl))).mpr rfl
  have hinv : Inv R none none 0 (s.parked none h' s.xNextTaskUnblockTime) y := by
    refine h.park ht hloose hput hr (by simp) ⟨hput.sorted (by simp) h.sorted.1, hput.sorted (by simp) h.sorted.2⟩ hfiled
      fun i hi => ?_
    rw [hput.value]
    exact h.unblock i (by rwa [hput.items _ hdelayed] at hi)
  subst ht
  exact ⟨h', y, Option.map_eq_some_iff.mpr ⟨h', hrun, rfl⟩, hinv, fun p => hput.turns _ (by simp)⟩

/-- The item comes into one of the two delayed lists. -/
theorem insert (h : Inv R (some t) loose 0 s x) (ht : s.pxCurrentTCB = t) (hloose : ∀ u, loose = some u → u = t)
    (hl : l = s.pxDelayedTaskList ∨ l = s.pxOverflowDelayedTaskList) {m : Option Nat} {v : UInt32}
    (hfiled : Filed 0 { s with history := s.history ++ [.blocked t m] } x t l)
    (hself : l = s.pxDelayedTaskList → v ≤ x.xItemValue (.state t))
    (hunblock : ∀ i ∈ x.items s.pxDelayedTaskList, v ≤ x.xItemValue i) :
    ∃ h' y, ListImpl.vListInsert s.lists l (.state t) = some h' ∧ Inv R none none 0 (s.parked m h' v) y ∧
      ∀ p, y.turns (.ready p) = x.turns (.ready p) := by
  obtain ⟨h', y, hrun, hr, hput, hsorted⟩ := Lists.put_of h.lists (h.held t rfl) l
  have hready (p : Fin configMaxPriorities) : ListId.ready p ≠ l := by
    rcases h.delayed with ⟨hd, ho⟩ | ⟨hd, ho⟩ <;> rw [hd, ho] at hl <;> rcases hl with rfl | rfl <;> simp
  have hsorted {k : ListId ε} (hk : x.Sorted k) : y.Sorted k := by
    by_cases hkl : k = l
    · subst hkl
      exact hsorted hk
    · exact hput.sorted hkl hk
  refine ⟨h', y, hrun, h.park ht hloose hput hr hready ⟨hsorted h.sorted.1, hsorted h.sorted.2⟩
    (hfiled.congr rfl (congrFun hput.value _) rfl rfl rfl rfl) fun i hi => ?_, fun p => hput.turns _ (hready p)⟩
  rw [hput.value]
  rcases hput.mem hi with ⟨rfl, hd⟩ | hi
  · exact hself hd.symm
  · exact hunblock i hi

theorem insertDelayed (h : Inv R (some t) loose 0 s x) (ht : s.pxCurrentTCB = t) (hloose : ∀ u, loose = some u → u = t)
    {n : UInt32} (hn : n ≠ 0) :
    ∃ h' v y, (s.log (.blocked t (some n.toNat))).insertDelayed (s.xTickCount + n) = some (s.parked (some n.toNat) h' v) ∧
      Inv R none none 0 (s.parked (some n.toNat) h' v) y ∧ ∀ p, y.turns (.ready p) = x.turns (.ready p) := by
  subst ht
  have hpos : n.toNat ≠ 0 := fun he => hn (UInt32.toNat_inj.mp he)
  have hadd : (s.xTickCount + n).toNat = (s.xTickCount.toNat + n.toNat) % 2 ^ 32 := UInt32.toNat_add ..
  have htick := s.xTickCount.toNat_lt
  have hlt := n.toNat_lt
  have h := h.value (s.xTickCount + n)
  have hself : (ListImpl.listSetListItemValue x (.state s.pxCurrentTCB) (s.xTickCount + n)).xItemValue
      (.state s.pxCurrentTCB) = s.xTickCount + n := Function.update_self ..
  unfold Sched.insertDelayed log
  split
  · rename_i hwraps
    rw [UInt32.lt_iff_toNat_lt] at hwraps
    change (s.xTickCount + n).toNat < s.xTickCount.toNat at hwraps
    have hoverflow : s.pxOverflowDelayedTaskList ≠ s.pxDelayedTaskList := by
      rcases h.delayed with ⟨hd, ho⟩ | ⟨hd, ho⟩ <;> simp at hd ho <;> simp [hd, ho]
    obtain ⟨h', y, hrun, hinv, hturns⟩ := h.insert rfl hloose (m := some n.toNat) (v := s.xNextTaskUnblockTime) (.inr rfl)
      (by
        refine (filed_timed (Turns.waiting_blocked.trans (if_pos rfl))).mpr (.inr ⟨rfl, ?_⟩)
        rw [hself]
        change (s.xTickCount + n).toNat + 2 ^ 32 + 0 = s.xTickCount.toNat + n.toNat
        omega)
      (fun he => absurd he hoverflow) h.unblock
    exact ⟨h', _, y, Option.map_eq_some_iff.mpr ⟨h', hrun, rfl⟩, hinv, hturns⟩
  · rename_i hwraps
    rw [UInt32.lt_iff_toNat_lt] at hwraps
    change ¬(s.xTickCount + n).toNat < s.xTickCount.toNat at hwraps
    obtain ⟨hle, hle'⟩ := ite_lt_le (s.xTickCount + n) s.xNextTaskUnblockTime
    obtain ⟨h', y, hrun, hinv, hturns⟩ := h.insert rfl hloose (m := some n.toNat)
      (v := if s.xTickCount + n < s.xNextTaskUnblockTime then s.xTickCount + n else s.xNextTaskUnblockTime) (.inl rfl)
      (by
        refine (filed_timed (Turns.waiting_blocked.trans (if_pos rfl))).mpr (.inl ⟨rfl, ?_, Nat.pos_of_ne_zero hpos⟩)
        rw [hself]
        change (s.xTickCount + n).toNat + 0 = s.xTickCount.toNat + n.toNat
        omega)
      (fun _ => by rwa [hself]) fun i hi => UInt32.le_trans hle' (h.unblock i hi)
    exact ⟨h', _, y, Option.map_eq_some_iff.mpr ⟨h', hrun, rfl⟩, hinv, hturns⟩

theorem prvAddCurrentTaskToDelayedList (h : Inv R none loose 0 s x) (hloose : ∀ u, loose = some u → u = s.pxCurrentTCB)
    (hready : waiting s.pxCurrentTCB s.history = none) {n : UInt32} (hn : n ≠ 0) (indefinitely : Bool) :
    ∃ s' y, s.prvAddCurrentTaskToDelayedList n indefinitely = some s' ∧ Blocks R s x s' y := by
  obtain ⟨h₁, b, x₁, hrun, hinv, htook⟩ := h.leaveReadyList hready
  have hblocks {m : Option Nat} {h₂ : σ} {v : UInt32} {y : Lists (Item ι) (ListId ε)} (hpos : m ≠ some 0)
      (hinv : Inv R none none 0 (parked { s with lists := h₁, uxTopReadyPriority := b } m h₂ v) y)
      (hy : ∀ p, y.turns (.ready p) = x₁.turns (.ready p)) :
      Blocks R s x (parked { s with lists := h₁, uxTopReadyPriority := b } m h₂ v) y := by
    refine ⟨hinv, ?_, ⟨rfl, rfl, rfl, rfl, rfl, rfl, by simp [parked], by simp [parked]⟩, rfl, by simp [parked],
      fun u hu => by simp [parked, hu.symm]⟩
    unfold agenda
    simp only [hy, h.turns_leave hready htook]
    exact .block _ m hready hpos
  unfold Sched.prvAddCurrentTaskToDelayedList
  rw [hrun, Option.bind_some]
  split
  · obtain ⟨h₂, y, hrun, hinv, hy⟩ := hinv.insertSuspended rfl hloose
    exact ⟨_, y, hrun, hblocks (by simp) hinv hy⟩
  · obtain ⟨h₂, v, y, hrun, hinv, hy⟩ := hinv.insertDelayed rfl hloose hn
    refine ⟨_, y, hrun, hblocks ?_ hinv hy⟩
    simpa using fun he => hn (UInt32.toNat_inj.mp he)

end Inv

end Sched

end SpeakingClock.Kernel
