import SpeakingClock.Net.Arp

/-! Which entry `etharp_find_entry` gives. When the address is in the table, it is its entry; otherwise the
    sweep has the oldest entry of each kind at hand, and the least destructive choice among them goes. -/

namespace SpeakingClock.Net
namespace Etharp
variable {P : Type} {t : Fin arpTableSize → EtharpEntry P} {K : EtharpEntry P → Prop}

/-! ### The sweep -/

/-- `o` is the oldest entry of kind `K` among those seen. -/
structure Oldest.Of (t : Fin arpTableSize → EtharpEntry P) (K : EtharpEntry P → Prop) (seen : List (Fin arpTableSize))
    (o : Oldest) : Prop where
  none : o.i = none → o.age = 0 ∧ ∀ j ∈ seen, ¬K (t j)
  some : ∀ i, o.i = some i → K (t i) ∧ o.age = (t i).ctime ∧ ∀ j ∈ seen, K (t j) → (t j).ctime ≤ (t i).ctime

theorem Oldest.Of.start : Oldest.Of t K [] ⟨.none, 0⟩ where
  none _ := ⟨rfl, fun _ hj => absurd hj List.not_mem_nil⟩
  some i hi := by cases hi

theorem Oldest.Of.skip {seen : List (Fin arpTableSize)} {o : Oldest} {i : Fin arpTableSize} (h : Oldest.Of t K seen o)
    (hi : ¬K (t i)) : Oldest.Of t K (seen ++ [i]) o where
  none ho := by
    obtain ⟨hage, hnone⟩ := h.none ho
    refine ⟨hage, fun j hj => ?_⟩
    rcases List.mem_append.mp hj with hj | hj
    · exact hnone j hj
    · rwa [List.mem_singleton.mp hj]
  some k hk := by
    obtain ⟨hK, hage, hold⟩ := h.some k hk
    refine ⟨hK, hage, fun j hj hKj => ?_⟩
    rcases List.mem_append.mp hj with hj | hj
    · exact hold j hj hKj
    · rw [List.mem_singleton.mp hj] at hKj
      exact absurd hKj hi

theorem Oldest.Of.note {seen : List (Fin arpTableSize)} {o : Oldest} {i : Fin arpTableSize} (h : Oldest.Of t K seen o)
    (hi : K (t i)) : Oldest.Of t K (seen ++ [i]) (o.note i (t i).ctime) := by
  unfold Oldest.note
  split
  · rename_i hge
    refine ⟨fun hno => (by cases hno), fun k hk => ?_⟩
    cases hk
    refine ⟨hi, rfl, fun j hj hKj => ?_⟩
    rcases List.mem_append.mp hj with hj | hj
    · cases ho : o.i with
      | none => exact absurd hKj ((h.none ho).2 j hj)
      | some k =>
        obtain ⟨-, hage, hold⟩ := h.some k ho
        rw [hage] at hge
        exact UInt16.le_trans (hold j hj hKj) hge
    · rw [List.mem_singleton.mp hj]
      exact UInt16.le_refl _
  · rename_i hlt
    refine ⟨fun ho => ?_, fun k hk => ?_⟩
    · rw [(h.none ho).1] at hlt
      exact absurd (UInt16.zero_le) hlt
    · obtain ⟨hK, hage, hold⟩ := h.some k hk
      refine ⟨hK, hage, fun j hj hKj => ?_⟩
      rcases List.mem_append.mp hj with hj | hj
      · exact hold j hj hKj
      · rw [List.mem_singleton.mp hj, ← hage]
        exact UInt16.le_of_lt (UInt16.not_le.mp hlt)

/-- What the sweep remembers of the entries it has seen. -/
structure Candidates.Of (t : Fin arpTableSize → EtharpEntry P) (seen : List (Fin arpTableSize)) (c : Candidates) : Prop where
  noEmpty : c.empty = none → ∀ j ∈ seen, (t j).state ≠ .empty
  empty : ∀ i, c.empty = some i → (t i).state = .empty
  stable : Oldest.Of t (fun e => e.state.isStable) seen c.stable
  pending : Oldest.Of t (fun e => e.state = .pending ∧ e.q = []) seen c.pending
  queue : Oldest.Of t (fun e => e.state = .pending ∧ e.q ≠ []) seen c.queue

theorem Candidates.Of.note {seen : List (Fin arpTableSize)} {c : Candidates} {i : Fin arpTableSize}
    (h : Candidates.Of t seen c) : Candidates.Of t (seen ++ [i]) (c.note i (t i)) := by
  have hnoEmpty (hi : (t i).state ≠ .empty) (hc : c.empty = none) : ∀ j ∈ seen ++ [i], (t j).state ≠ .empty := by
    intro j hj
    rcases List.mem_append.mp hj with hj | hj
    · exact h.noEmpty hc j hj
    · rwa [List.mem_singleton.mp hj]
  unfold Candidates.note
  cases hi : (t i).state with
  | empty =>
    refine ⟨fun hc => ?_, fun k hk => ?_, h.stable.skip (by simp [hi, EtharpState.isStable]), h.pending.skip (by simp [hi]),
      h.queue.skip (by simp [hi])⟩
    · cases hempty : c.empty <;> simp [hempty] at hc
    · cases hempty : c.empty with
      | none =>
        simp only [hempty, Option.none_or, Option.some.injEq] at hk
        rwa [← hk]
      | some j =>
        simp only [hempty, Option.some_or, Option.some.injEq] at hk
        exact h.empty k (by rw [hempty, hk])
  | pending =>
    have hstable : ¬(t i).state.isStable := by simp [hi, EtharpState.isStable]
    by_cases hq : (t i).q = []
    · simp only [hq, if_true]
      exact ⟨hnoEmpty (by simp [hi]), h.empty, h.stable.skip hstable, h.pending.note ⟨hi, hq⟩, h.queue.skip (by simp [hq])⟩
    · simp only [hq, if_false]
      exact ⟨hnoEmpty (by simp [hi]), h.empty, h.stable.skip hstable, h.pending.skip (by simp [hq]), h.queue.note ⟨hi, hq⟩⟩
  | stable | stableRerequesting1 | stableRerequesting2 =>
    exact ⟨hnoEmpty (by simp [hi]), h.empty, h.stable.note (by simp [hi, EtharpState.isStable]), h.pending.skip (by simp [hi]),
      h.queue.skip (by simp [hi])⟩

/-- The sweep, with the entries `seen` behind it. -/
theorem sweep_spec {ipaddr : UInt32} {is seen : List (Fin arpTableSize)} {c : Candidates} (h : Candidates.Of t seen c) :
    (∃ i ∈ is, sweep t ipaddr is c = .inl i ∧ (t i).state ≠ .empty ∧ ipaddr = (t i).ipaddr) ∨
      ∃ c', sweep t ipaddr is c = .inr c' ∧ Candidates.Of t (seen ++ is) c' ∧
        ∀ j ∈ is, (t j).state ≠ .empty → ipaddr ≠ (t j).ipaddr := by
  induction is generalizing seen c with
  | nil => exact Or.inr ⟨c, rfl, by rwa [List.append_nil], fun _ hj => absurd hj List.not_mem_nil⟩
  | cons i is ih =>
    unfold sweep
    by_cases hi : (t i).state ≠ .empty ∧ ipaddr = (t i).ipaddr
    · exact Or.inl ⟨i, List.mem_cons_self, if_pos hi, hi⟩
    · rw [if_neg hi]
      rcases @ih (seen ++ [i]) _ h.note with ⟨j, hj, hfound⟩ | ⟨c', hc', hof, hnone⟩
      · exact Or.inl ⟨j, List.mem_cons_of_mem _ hj, hfound⟩
      · refine Or.inr ⟨c', hc', by rwa [List.append_assoc] at hof, fun j hj hne => ?_⟩
        rcases List.mem_cons.mp hj with rfl | hj
        · exact fun heq => hi ⟨hne, heq⟩
        · exact hnone j hj hne

/-! ### The choice -/

/-- What is lost with an entry: nothing, an address, a request, a request with the packets that wait for its
    answer. -/
def cost (e : EtharpEntry P) : Nat :=
  match e.state with
  | .empty => 0
  | .pending => if e.q = [] then 2 else 3
  | _ => 1

/-- No other entry would be a smaller loss, or the same loss but older. -/
def LeastLoss (t : Fin arpTableSize → EtharpEntry P) (i : Fin arpTableSize) : Prop :=
  ∀ j, cost (t i) < cost (t j) ∨ cost (t i) = cost (t j) ∧ (cost (t i) = 0 ∨ (t j).ctime ≤ (t i).ctime)

theorem cost_eq_zero {e : EtharpEntry P} : cost e = 0 ↔ e.state = .empty := by
  unfold cost
  cases he : e.state <;> simp
  split <;> decide

theorem cost_eq_one {e : EtharpEntry P} : cost e = 1 ↔ e.state.isStable := by
  unfold cost
  cases he : e.state <;> simp [EtharpState.isStable]
  split <;> decide

theorem cost_eq_two {e : EtharpEntry P} : cost e = 2 ↔ e.state = .pending ∧ e.q = [] := by
  unfold cost
  cases he : e.state <;> simp

theorem cost_eq_three {e : EtharpEntry P} : cost e = 3 ↔ e.state = .pending ∧ e.q ≠ [] := by
  unfold cost
  cases he : e.state <;> simp

theorem cost_cases (e : EtharpEntry P) : cost e = 0 ∨ cost e = 1 ∨ cost e = 2 ∨ cost e = 3 := by
  rw [cost_eq_zero, cost_eq_one, cost_eq_two, cost_eq_three]
  cases he : e.state with
  | pending => by_cases hq : e.q = [] <;> simp [hq]
  | _ => simp [EtharpState.isStable]

theorem Candidates.Of.recycle {c : Candidates} (h : Candidates.Of t (List.finRange arpTableSize) c)
    (hempty : c.empty = none) : ∃ i, c.recycle = some i ∧ (t i).state ≠ .empty ∧ LeastLoss t i := by
  have hne (j) : cost (t j) ≠ 0 := fun hj => h.noEmpty hempty j (List.mem_finRange j) (cost_eq_zero.mp hj)
  unfold Candidates.recycle
  cases hstable : c.stable.i with
  | some i =>
    obtain ⟨hi, -, hold⟩ := h.stable.some i hstable
    refine ⟨i, rfl, fun he => hne i (cost_eq_zero.mpr he), fun j => ?_⟩
    rw [cost_eq_one.mpr hi]
    by_cases hj : cost (t j) = 1
    · exact Or.inr ⟨hj.symm, Or.inr (hold j (List.mem_finRange j) (cost_eq_one.mp hj))⟩
    · have := hne j
      exact Or.inl (by omega)
  | none =>
    have hno (j) : cost (t j) ≠ 1 := fun hj => (h.stable.none hstable).2 j (List.mem_finRange j) (cost_eq_one.mp hj)
    cases hpending : c.pending.i with
    | some i =>
      obtain ⟨hi, -, hold⟩ := h.pending.some i hpending
      refine ⟨i, rfl, fun he => hne i (cost_eq_zero.mpr he), fun j => ?_⟩
      rw [cost_eq_two.mpr hi]
      by_cases hj : cost (t j) = 2
      · exact Or.inr ⟨hj.symm, Or.inr (hold j (List.mem_finRange j) (cost_eq_two.mp hj))⟩
      · have := hne j
        have := hno j
        exact Or.inl (by omega)
    | none =>
      have hno2 (j) : cost (t j) ≠ 2 := fun hj => (h.pending.none hpending).2 j (List.mem_finRange j) (cost_eq_two.mp hj)
      have hthree (j) : cost (t j) = 3 := by
        rcases cost_cases (t j) with hj | hj | hj | hj
        · exact absurd hj (hne j)
        · exact absurd hj (hno j)
        · exact absurd hj (hno2 j)
        · exact hj
      cases hqueue : c.queue.i with
      | some i =>
        obtain ⟨hi, -, hold⟩ := h.queue.some i hqueue
        refine ⟨i, rfl, fun he => hne i (cost_eq_zero.mpr he), fun j => ?_⟩
        rw [hthree i, hthree j]
        exact Or.inr ⟨rfl, Or.inr (hold j (List.mem_finRange j) (cost_eq_three.mp (hthree j)))⟩
      -- the table is not empty, so there is an entry of some kind
      | none =>
        have hfirst := (h.queue.none hqueue).2 ⟨0, by decide⟩ (List.mem_finRange _)
        exact absurd (cost_eq_three.mp (hthree _)) hfirst

/-! ### `etharp_find_entry` -/

variable {s : Etharp P} {ipaddr : UInt32}

/-- The entry `i` is in use for the address. -/
def Has (s : Etharp P) (i : Fin arpTableSize) (ipaddr : UInt32) : Prop :=
  (s.arpTable i).state ≠ .empty ∧ ipaddr = (s.arpTable i).ipaddr

/-- `etharp_find_entry` finds the entry that has the address. Otherwise it finds none, when that is all it may
    do; or it finds the least loss, and has emptied it. -/
theorem findEntry_spec (s : Etharp P) (ipaddr : UInt32) (flags : FindFlag) :
    (∃ i, s.findEntry ipaddr flags = (some i, s) ∧ s.Has i ipaddr) ∨
      (∀ j, ¬s.Has j ipaddr) ∧
        (flags = .findOnly ∧ s.findEntry ipaddr flags = (none, s) ∨
          flags = .tryHard ∧ ∃ i, LeastLoss s.arpTable i ∧
            ((s.arpTable i).state = .empty ∧ s.findEntry ipaddr flags = (some i, s.newEntry i ipaddr) ∨
              (s.arpTable i).state ≠ .empty ∧ s.findEntry ipaddr flags = (some i, (s.freeEntry i).newEntry i ipaddr))) := by
  unfold findEntry
  have hstart : Candidates.Of s.arpTable [] .init :=
    ⟨fun _ _ hj => absurd hj List.not_mem_nil, fun _ hi => (by cases hi), .start, .start, .start⟩
  rcases @sweep_spec P s.arpTable ipaddr (List.finRange arpTableSize) [] .init hstart with
    ⟨i, -, hfound, hi⟩ | ⟨c, hc, hof, hnone⟩
  · rw [hfound]
    exact Or.inl ⟨i, rfl, hi⟩
  · refine Or.inr ⟨fun j hj => hnone j (List.mem_finRange j) hj.1 hj.2, ?_⟩
    simp only [hc]
    cases flags with
    | findOnly => exact Or.inl ⟨rfl, if_pos rfl⟩
    | tryHard =>
      refine Or.inr ⟨rfl, ?_⟩
      rw [List.nil_append] at hof
      simp only [reduceCtorEq, if_false]
      cases hempty : c.empty with
      | some i =>
        have hi := hof.empty i hempty
        refine ⟨i, fun j => ?_, Or.inl ⟨hi, rfl⟩⟩
        rw [cost_eq_zero.mpr hi]
        rcases Nat.eq_zero_or_pos (cost (s.arpTable j)) with hj | hj
        · exact Or.inr ⟨hj.symm, Or.inl rfl⟩
        · exact Or.inl hj
      | none =>
        obtain ⟨i, hi, hne, hloss⟩ := hof.recycle hempty
        refine ⟨i, hloss, Or.inr ⟨hne, ?_⟩⟩
        simp only [hi]

/-- With `ETHARP_FLAG_TRY_HARD` there always is an entry. It is the one that has the address, or one that no
    entry would be a smaller loss than; the others stay as they are. -/
theorem findEntry_tryHard (s : Etharp P) (ipaddr : UInt32) :
    ∃ i, (s.findEntry ipaddr .tryHard).1 = some i ∧
      (∀ j ≠ i, (s.findEntry ipaddr .tryHard).2.arpTable j = s.arpTable j) ∧
      (s.Has i ipaddr ∧ (s.findEntry ipaddr .tryHard).2 = s ∨
        (∀ j, ¬s.Has j ipaddr) ∧ LeastLoss s.arpTable i ∧
          ((s.findEntry ipaddr .tryHard).2.arpTable i).state = .empty ∧
          ((s.findEntry ipaddr .tryHard).2.arpTable i).ipaddr = ipaddr) := by
  rcases findEntry_spec s ipaddr .tryHard with ⟨i, hfind, hi⟩ | ⟨hno, ⟨hflag, -⟩ | ⟨-, i, hloss, ⟨hempty, hfind⟩ | ⟨-, hfind⟩⟩⟩
  · rw [hfind]
    exact ⟨i, rfl, fun _ _ => rfl, Or.inl ⟨hi, rfl⟩⟩
  · cases hflag
  · rw [hfind]
    refine ⟨i, rfl, fun j hj => Function.update_of_ne hj .., Or.inr ⟨hno, hloss, ?_⟩⟩
    simp only [newEntry, setEntry, Function.update_self]
    exact ⟨hempty, trivial⟩
  · rw [hfind]
    refine ⟨i, rfl, fun j hj => ?_, Or.inr ⟨hno, hloss, ?_⟩⟩
    · simp only [newEntry, freeEntry, setEntry, Function.update_of_ne hj]
    · simp only [newEntry, freeEntry, setEntry, Function.update_self]
      exact ⟨rfl, trivial⟩

end Etharp

end SpeakingClock.Net
