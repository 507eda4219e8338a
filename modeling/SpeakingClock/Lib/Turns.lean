import Mathlib.Order.Defs.LinearOrder
import Mathlib.Tactic

/-! Tasks that take turns. A task is ready, or it waits: until it is woken, or until as many ticks are counted
    as it said. Of the ready tasks the first one of the highest priority is chosen, and goes to the end. The
    rule `Agenda.Inv.moves` says what comes of that along every run: time-outs come when they are due, the
    chosen are of the highest priority, and no task is chosen twice while another of its priority stays ready
    and is not chosen. -/

namespace Turns
variable {T P : Type}

inductive TaskEvent (T : Type) where
  | sysTick  -- the clock ticked
  | tick  -- a tick was counted
  | blocked (t : T) (ticks : Option Nat)  -- none: until it is woken
  | timedOut (t : T)
  | readied (t : T)
  | chosen (t : T)
  deriving DecidableEq

/-- The ready tasks of each priority, the next one first, and what happened. -/
structure Agenda (T P : Type) where
  turns : P → List T
  history : List (TaskEvent T)

/-- A history with one more event, cut at an event. -/
theorem cut_snoc {α : Type} {l pre post : List α} {e x : α} (h : l ++ [e] = pre ++ x :: post) :
    post = [] ∧ l = pre ∧ e = x ∨ ∃ post', post = post' ++ [e] ∧ l = pre ++ x :: post' := by
  rcases List.eq_nil_or_concat post with rfl | ⟨post', e', rfl⟩
  · obtain ⟨hl, he⟩ := List.append_inj' h rfl
    cases he
    exact .inl ⟨rfl, hl, rfl⟩
  · rw [List.concat_eq_append, ← List.cons_append, ← List.append_assoc] at h
    obtain ⟨hl, he⟩ := List.append_inj' h rfl
    cases he
    exact .inr ⟨post', List.concat_eq_append, hl⟩

/-! ### Waiting -/

section
variable [DecidableEq T] {t u : T} {es : List (TaskEvent T)} {e : TaskEvent T}

/-- Whether a task waits: for how many ticks, and how many of them were counted. -/
def note (t : T) (w : Option (Option Nat × Nat)) : TaskEvent T → Option (Option Nat × Nat)
  | .tick => w.map fun w => (w.1, w.2 + 1)
  | .blocked u n => if u = t then some (n, 0) else w
  | .timedOut u | .readied u => if u = t then none else w
  | .sysTick | .chosen _ => w

def waiting (t : T) (es : List (TaskEvent T)) : Option (Option Nat × Nat) := es.foldl (note t) none

theorem waiting_snoc : waiting t (es ++ [e]) = note t (waiting t es) e := by
  simp [waiting]

@[simp] theorem waiting_nil : waiting t [] = none := rfl

@[simp] theorem waiting_sysTick : waiting t (es ++ [.sysTick]) = waiting t es := waiting_snoc

@[simp] theorem waiting_chosen : waiting t (es ++ [.chosen u]) = waiting t es := waiting_snoc

@[simp] theorem waiting_tick : waiting t (es ++ [.tick]) = (waiting t es).map fun w => (w.1, w.2 + 1) := waiting_snoc

@[simp] theorem waiting_blocked {n : Option Nat} :
    waiting t (es ++ [.blocked u n]) = if u = t then some (n, 0) else waiting t es := waiting_snoc

@[simp] theorem waiting_timedOut : waiting t (es ++ [.timedOut u]) = if u = t then none else waiting t es := waiting_snoc

@[simp] theorem waiting_readied : waiting t (es ++ [.readied u]) = if u = t then none else waiting t es := waiting_snoc

end

/-! ### What can happen -/

section
variable [DecidableEq T] [LinearOrder P] {prio : T → P} {a b c : Agenda T P} {t u : T} {es : List (TaskEvent T)}
  {e : TaskEvent T}

/-- No tick is counted while a task is still to be let out of a wait that is over. -/
inductive Move (prio : T → P) (a : Agenda T P) : Agenda T P → Prop where
  | clock : Move prio a ⟨a.turns, a.history ++ [.sysTick]⟩
  | tick (inTime : ∀ t n k, waiting t a.history = some (some n, k) → k < n) : Move prio a ⟨a.turns, a.history ++ [.tick]⟩
  | block (t : T) (n : Option Nat) (ready : waiting t a.history = none) (pos : n ≠ some 0) :
      Move prio a ⟨Function.update a.turns (prio t) ((a.turns (prio t)).erase t), a.history ++ [.blocked t n]⟩
  | timeOut (t : T) (n : Nat) {xs ys : List T} (due : waiting t a.history = some (some n, n))
      (cut : a.turns (prio t) = xs ++ ys) :
      Move prio a ⟨Function.update a.turns (prio t) (xs ++ t :: ys), a.history ++ [.timedOut t]⟩
  | wake (t : T) {xs ys : List T} (waits : waiting t a.history ≠ none) (cut : a.turns (prio t) = xs ++ ys) :
      Move prio a ⟨Function.update a.turns (prio t) (xs ++ t :: ys), a.history ++ [.readied t]⟩
  | choose (t : T) {ts : List T} (head : a.turns (prio t) = t :: ts) (highest : ∀ p, prio t < p → a.turns p = []) :
      Move prio a ⟨Function.update a.turns (prio t) (ts ++ [t]), a.history ++ [.chosen t]⟩

/-- One move after the other. -/
inductive Moves (prio : T → P) : Agenda T P → Agenda T P → Prop where
  | refl (a : Agenda T P) : Moves prio a a
  | tail {a b c : Agenda T P} : Moves prio a b → Move prio b c → Moves prio a c

theorem Move.moves (h : Move prio a b) : Moves prio a b := .tail (.refl a) h

theorem Moves.trans (h : Moves prio a b) (h' : Moves prio b c) : Moves prio a c := by
  induction h' with
  | refl => exact h
  | tail _ hm ih => exact ih.tail hm

/-! ### What holds at any time -/

/-- Neither task blocks. -/
def Stay (t u : T) (es : List (TaskEvent T)) : Prop := ∀ n, .blocked t n ∉ es ∧ .blocked u n ∉ es

/-- What the history tells of the rules: a wait that times out is over, who is chosen is ready and of the highest
    priority, and between two turns of a task the others of its priority that stay ready are chosen as well. -/
structure Past (prio : T → P) (es : List (TaskEvent T)) : Prop where
  exact : ∀ pre t post, es = pre ++ .timedOut t :: post → ∃ n, 0 < n ∧ waiting t pre = some (some n, n)
  highest : ∀ pre t post, es = pre ++ .chosen t :: post → waiting t pre = none ∧ ∀ u, waiting u pre = none → prio u ≤ prio t
  fair : ∀ pre t mid post u, es = pre ++ .chosen t :: (mid ++ .chosen t :: post) → u ≠ t → prio u = prio t →
    waiting u pre = none → Stay u t mid → .chosen u ∈ mid

/-- The tasks that were ready when `t` was chosen come before it, until they are chosen. -/
def Ordered (prio : T → P) (turns : P → List T) (es : List (TaskEvent T)) : Prop :=
  ∀ pre t mid u, es = pre ++ .chosen t :: mid → u ≠ t → prio u = prio t → waiting u pre = none →
    Stay u t mid → .chosen u ∉ mid → [u, t].Sublist (turns (prio t))

structure Agenda.Inv (prio : T → P) (a : Agenda T P) : Prop where
  mem : ∀ {p t}, t ∈ a.turns p ↔ p = prio t ∧ waiting t a.history = none
  nodup : ∀ p, (a.turns p).Nodup
  waits : ∀ t n k, waiting t a.history = some (some n, k) → k ≤ n ∧ 0 < n
  past : Past prio a.history
  ordered : Ordered prio a.turns a.history

omit [DecidableEq T] in
theorem Stay.of_append {es' : List (TaskEvent T)} (h : Stay t u (es ++ es')) : Stay t u es := fun n =>
  ⟨fun hm => (h n).1 (List.mem_append_left _ hm), fun hm => (h n).2 (List.mem_append_left _ hm)⟩

theorem Past.snoc (h : Past prio es) (hexact : ∀ t, e = .timedOut t → ∃ n, 0 < n ∧ waiting t es = some (some n, n))
    (hhighest : ∀ t, e = .chosen t → waiting t es = none ∧ ∀ u, waiting u es = none → prio u ≤ prio t)
    (hfair : ∀ pre t mid u, e = .chosen t → es = pre ++ .chosen t :: mid → u ≠ t → prio u = prio t →
      waiting u pre = none → Stay u t mid → .chosen u ∈ mid) : Past prio (es ++ [e]) where
  exact pre t post heq := by
    rcases cut_snoc heq with ⟨-, rfl, he⟩ | ⟨post', -, hes⟩
    · exact hexact t he
    · exact h.exact pre t post' hes
  highest pre t post heq := by
    rcases cut_snoc heq with ⟨-, rfl, he⟩ | ⟨post', -, hes⟩
    · exact hhighest t he
    · exact h.highest pre t post' hes
  fair pre t mid post u heq := by
    rw [← List.cons_append, ← List.append_assoc] at heq
    rcases cut_snoc heq with ⟨-, hes, he⟩ | ⟨post', -, hes⟩
    · exact hfair pre t mid u he hes
    · rw [List.append_assoc, List.cons_append] at hes
      exact h.fair pre t mid post' u hes

theorem Past.quiet (h : Past prio es) (ht : ∀ t, e ≠ .timedOut t) (hc : ∀ t, e ≠ .chosen t) : Past prio (es ++ [e]) :=
  h.snoc (fun t he => absurd he (ht t)) (fun t he => absurd he (hc t)) fun _ t _ _ he => absurd he (hc t)

omit [LinearOrder P] in
/-- The order is kept by what keeps the order of those who stay. -/
theorem Ordered.snoc {turns turns' : P → List T} (h : Ordered prio turns es)
    (hkept : ∀ t u, (∀ n, e ≠ .blocked t n ∧ e ≠ .blocked u n) → e ≠ .chosen u → [u, t].Sublist (turns (prio t)) →
      [u, t].Sublist (turns' (prio t)))
    (hchosen : ∀ t u, e = .chosen t → u ≠ t → prio u = prio t → waiting u es = none → [u, t].Sublist (turns' (prio t))) :
    Ordered prio turns' (es ++ [e]) := by
  intro pre t mid u heq hne hprio hready hstay hnot
  rcases cut_snoc heq with ⟨-, rfl, he⟩ | ⟨mid', rfl, hes⟩
  · exact hchosen t u he hne hprio hready
  · refine hkept t u (fun n => ?_) (fun he => ?_) (h pre t mid' u hes hne hprio hready hstay.of_append fun hm =>
      hnot (List.mem_append_left _ hm))
    · obtain ⟨hu, ht⟩ := hstay n
      exact ⟨fun he => ht (by simp [he]), fun he => hu (by simp [he])⟩
    · exact hnot (by simp [he])

namespace Agenda.Inv

/-- Nothing but the history changes, and nobody becomes ready or begins to wait. -/
theorem noted (h : a.Inv prio) (hready : ∀ u, waiting u (a.history ++ [e]) = none ↔ waiting u a.history = none)
    (hwaits : ∀ t n k, waiting t (a.history ++ [e]) = some (some n, k) → k ≤ n ∧ 0 < n) (ht : ∀ t, e ≠ .timedOut t)
    (hc : ∀ t, e ≠ .chosen t) : Inv prio ⟨a.turns, a.history ++ [e]⟩ where
  mem := by
    intro p t
    rw [hready]
    exact h.mem
  nodup := h.nodup
  waits := hwaits
  past := h.past.quiet ht hc
  ordered := h.ordered.snoc (fun _ _ _ _ hsub => hsub) fun t _ he => absurd he (hc t)

/-- The turns of one priority change: who is in them has to be looked at. -/
theorem mem_update (h : a.Inv prio) {l : List T} (hl : ∀ u, prio u = prio t → (u ∈ l ↔ waiting u es = none))
    (hprio : ∀ u ∈ l, prio u = prio t) (hothers : ∀ u, prio u ≠ prio t → waiting u es = waiting u a.history) {p : P} {u : T} :
    u ∈ Function.update a.turns (prio t) l p ↔ p = prio u ∧ waiting u es = none := by
  by_cases hp : p = prio t
  · subst hp
    rw [Function.update_self]
    constructor
    · intro hu
      exact ⟨(hprio u hu).symm, (hl u (hprio u hu)).mp hu⟩
    · rintro ⟨hu, hready⟩
      exact (hl u hu.symm).mpr hready
  · rw [Function.update_of_ne hp, h.mem]
    refine and_congr_right fun hu => ?_
    rw [hothers u fun he => hp (hu.trans he)]

theorem nodup_update (h : a.Inv prio) {l : List T} (hl : l.Nodup) (p : P) :
    (Function.update a.turns (prio t) l p).Nodup := by
  by_cases hp : p = prio t
  · subst hp
    rwa [Function.update_self]
  · rw [Function.update_of_ne hp]
    exact h.nodup p

theorem block (h : a.Inv prio) (t : T) {n : Option Nat} (hpos : n ≠ some 0) :
    Inv prio ⟨Function.update a.turns (prio t) ((a.turns (prio t)).erase t), a.history ++ [.blocked t n]⟩ where
  mem := by
    intro p v
    refine h.mem_update (fun u hu => ?_) (fun u hu => ?_) fun u hu => ?_
    · rw [(h.nodup _).mem_erase_iff, h.mem, waiting_blocked]
      split <;> rename_i htu
      · simp [htu]
      · simp [Ne.symm htu, hu]
    · exact (h.mem.mp (List.mem_of_mem_erase hu)).1.symm
    · rw [waiting_blocked, if_neg fun he => hu (by rw [he])]
  nodup := h.nodup_update ((h.nodup _).erase t)
  waits u m k hu := by
    rw [waiting_blocked] at hu
    split at hu
    · cases hu
      exact ⟨Nat.zero_le m, Nat.pos_of_ne_zero fun h0 => hpos (by rw [h0])⟩
    · exact h.waits u m k hu
  past := h.past.quiet (fun _ he => by cases he) fun _ he => by cases he
  ordered := by
    refine h.ordered.snoc (fun v u hstay _ hsub => ?_) fun _ _ he => by cases he
    by_cases hp : prio v = prio t
    · have hu : t ≠ u := fun he => (hstay n).2 (by rw [he])
      have hv : t ≠ v := fun he => (hstay n).1 (by rw [he])
      simp only [hp, Function.update_self]
      have herase := hsub.erase t
      rwa [List.erase_of_not_mem (by simp [hu, hv]), hp] at herase
    · simpa only [Function.update_of_ne hp] using hsub

/-- A task becomes ready, wherever it gets its turn. -/
theorem enter (h : a.Inv prio) {xs ys : List T} (hcut : a.turns (prio t) = xs ++ ys) (hwaits : waiting t a.history ≠ none)
    (he : ∀ u, waiting u (a.history ++ [e]) = if t = u then none else waiting u a.history)
    (hpast : Past prio (a.history ++ [e])) (hc : ∀ u, e ≠ .chosen u) :
    Inv prio ⟨Function.update a.turns (prio t) (xs ++ t :: ys), a.history ++ [e]⟩ where
  mem := by
    have hmem (u : T) : u ∈ xs ++ t :: ys ↔ u = t ∨ prio t = prio u ∧ waiting u a.history = none := by
      rw [List.mem_append, List.mem_cons, or_left_comm, ← List.mem_append, ← hcut, h.mem]
    intro p v
    refine h.mem_update (fun u hu => ?_) (fun u hu => ?_) fun u hu => ?_
    · rw [hmem, he]
      split <;> rename_i htu
      · simp [htu]
      · simp [Ne.symm htu, hu]
    · rcases (hmem u).mp hu with rfl | ⟨hp, -⟩
      · rfl
      · exact hp.symm
    · rw [he, if_neg fun heq => hu (by rw [heq])]
  nodup := by
    refine h.nodup_update ?_
    rw [List.nodup_middle, List.nodup_cons, ← hcut, h.mem]
    exact ⟨fun hm => hwaits hm.2, h.nodup _⟩
  waits u m k hu := by
    rw [he] at hu
    split at hu
    · cases hu
    · exact h.waits u m k hu
  past := hpast
  ordered := by
    refine h.ordered.snoc (fun v u _ _ hsub => ?_) fun u _ he => absurd he (hc u)
    by_cases hp : prio v = prio t
    · rw [hp, hcut] at hsub
      simp only [hp, Function.update_self]
      exact hsub.trans ((List.Sublist.refl xs).append (List.sublist_cons_self t ys))
    · simpa only [Function.update_of_ne hp] using hsub

/-- Of two tasks one comes before the other, so it is not the other that comes first. -/
theorem head_ne (h : a.Inv prio) {p : P} {ts : List T} (hhead : a.turns p = t :: ts) (hne : u ≠ t)
    (hsub : [u, t].Sublist (a.turns p)) : False := by
  have hnd := h.nodup p
  rw [hhead] at hnd hsub
  cases hsub with
  | cons _ hsub => exact (List.nodup_cons.mp hnd).1 (hsub.subset (by simp))
  | cons_cons => exact hne rfl

theorem choose (h : a.Inv prio) {ts : List T} (hhead : a.turns (prio t) = t :: ts)
    (hhighest : ∀ p, prio t < p → a.turns p = []) :
    Inv prio ⟨Function.update a.turns (prio t) (ts ++ [t]), a.history ++ [.chosen t]⟩ where
  mem := by
    have hmem (u : T) : u ∈ ts ++ [t] ↔ prio t = prio u ∧ waiting u a.history = none := by
      rw [← h.mem, hhead, (List.perm_append_singleton t ts).mem_iff]
    intro p v
    refine h.mem_update (fun u hu => ?_) (fun u hu => ?_) fun u _ => waiting_chosen
    · rw [hmem, waiting_chosen]
      simp [hu]
    · exact ((hmem u).mp hu).1.symm
  nodup := h.nodup_update ((List.perm_append_singleton t ts).nodup_iff.mpr (hhead ▸ h.nodup _))
  waits u m k hu := h.waits u m k (by rwa [waiting_chosen] at hu)
  past := by
    have hready : waiting t a.history = none := (h.mem.mp (hhead ▸ List.mem_cons_self)).2
    refine h.past.snoc (fun _ he => by cases he) (fun v he => ?_) fun pre v mid u he heq hne hprio hu hstay => ?_
    · cases he
      refine ⟨hready, fun u hu => le_of_not_gt fun hlt => ?_⟩
      have hmem : u ∈ a.turns (prio u) := h.mem.mpr ⟨rfl, hu⟩
      rw [hhighest _ hlt] at hmem
      cases hmem
    · cases he
      by_contra hnot
      exact h.head_ne hhead hne (h.ordered pre t mid u heq hne hprio hu hstay hnot)
  ordered := by
    refine h.ordered.snoc (fun v u _ hnot hsub => ?_) fun v u he hne hprio hu => ?_
    · have htu : t ≠ u := fun he => hnot (by rw [he])
      by_cases hp : prio v = prio t
      · rw [hp] at hsub ⊢
        simp only [Function.update_self]
        rw [hhead] at hsub
        cases hsub with
        | cons _ hsub => exact hsub.trans (List.sublist_append_left ts [t])
        | cons_cons => exact absurd rfl htu
      · simpa only [Function.update_of_ne hp] using hsub
    · cases he
      have hmem : u ∈ a.turns (prio t) := h.mem.mpr ⟨hprio.symm, hu⟩
      rw [hhead, List.mem_cons] at hmem
      simp only [Function.update_self]
      exact (List.singleton_sublist.mpr (hmem.resolve_left hne)).append (List.Sublist.refl [t])

theorem move (h : a.Inv prio) (hm : Move prio a b) : b.Inv prio := by
  cases hm with
  | clock =>
    exact h.noted (fun u => by rw [waiting_sysTick]) (fun t n k ht => h.waits t n k (by rwa [waiting_sysTick] at ht))
      (fun _ he => by cases he) fun _ he => by cases he
  | tick inTime =>
    refine h.noted (fun u => by rw [waiting_tick, Option.map_eq_none_iff]) (fun t n k ht => ?_) (fun _ he => by cases he)
      fun _ he => by cases he
    rw [waiting_tick, Option.map_eq_some_iff] at ht
    obtain ⟨⟨m, j⟩, ht, heq⟩ := ht
    cases heq
    exact ⟨inTime t n j ht, (h.waits t n j ht).2⟩
  | block t n _ pos => exact h.block t pos
  | timeOut t n due cut =>
    refine h.enter cut (by rw [due]; exact Option.some_ne_none _) (fun u => waiting_timedOut) ?_ fun _ he => by cases he
    refine h.past.snoc (fun u he => ?_) (fun _ he => by cases he) fun _ _ _ _ he => by cases he
    cases he
    exact ⟨n, (h.waits t n n due).2, due⟩
  | wake t waits cut =>
    exact h.enter cut waits (fun u => waiting_readied) (h.past.quiet (fun _ he => by cases he) fun _ he => by cases he)
      fun _ he => by cases he
  | choose t head highest => exact h.choose head highest

theorem moves (h : a.Inv prio) (hm : Moves prio a b) : b.Inv prio := by
  induction hm with
  | refl => exact h
  | tail _ hm ih => exact ih.move hm

/-- At the beginning all tasks are ready. -/
theorem start {turns : P → List T} (hmem : ∀ p t, t ∈ turns p ↔ p = prio t) (hnodup : ∀ p, (turns p).Nodup) :
    Inv prio ⟨turns, []⟩ where
  mem := by simp [hmem]
  nodup := hnodup
  waits _ _ _ ht := by cases ht
  past := ⟨fun _ _ _ h => by simp at h, fun _ _ _ h => by simp at h, fun _ _ _ _ _ h => by simp at h⟩
  ordered _ _ _ _ h := by simp at h

end Agenda.Inv

end

end Turns
