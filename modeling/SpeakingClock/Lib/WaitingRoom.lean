import Mathlib.Tactic

/-! Tasks that wait for a resource. Who finds none enters the list of waiters; who adds one wakes the
    first waiter, unless the list is locked, and then counts it for the one who unlocks the list. `coming`
    are those who will look for a unit before they wait again. The rule `Room.Inv.moves` says that no
    wake-up is lost: while someone waits, every unit has someone who comes for it. -/

namespace WaitingRoom
variable {T : Type} [DecidableEq T]

structure Room (T : Type) where
  avail : Nat  -- the units of the resource
  lock : Option Nat  -- when the list is locked, the units that were counted since
  placing : Bool  -- someone found none and is about to enter the locked list
  waiters : List T
  coming : Finset T

/-- The first waiter is woken. -/
def Room.wake (r : Room T) : Room T :=
  { r with waiters := r.waiters.tail, coming := r.coming ∪ r.waiters.head?.toFinset }

/-- What can happen, where at most `cap` units are counted. -/
inductive Move (cap : Nat) (r : Room T) : Room T → Prop where
  | come (t : T) (out : t ∉ r.waiters) : Move cap r { r with coming := insert t r.coming }
  | leave (t : T) (none : r.avail = 0) : Move cap r { r with coming := r.coming.erase t }
  | take (t : T) (mem : t ∈ r.coming) : Move cap r { r with avail := r.avail - 1, coming := r.coming.erase t }
  | fewer {avail : Nat} (le : avail ≤ r.avail) : Move cap r { r with avail := avail }
  | post {avail : Nat} (free : r.lock = none) (le : avail ≤ r.avail + 1) : Move cap r { r with avail := avail }.wake
  /-- One of those who come leaves his unit to the first waiter. -/
  | hand (t : T) (free : r.lock = none) : Move cap r { r with coming := r.coming.erase t }.wake
  | count {avail n : Nat} (locked : r.lock = some n) (le : avail ≤ r.avail + 1) :
      Move cap r { r with avail := avail, lock := some (if n < cap then n + 1 else n) }
  | lock (free : r.lock = none) : Move cap r { r with lock := some 0 }
  | check (locked : r.lock.isSome) (none : r.avail = 0) : Move cap r { r with placing := true }
  | place {ws : List T} (t : T) (placing : r.placing = true) (out : t ∉ r.coming) (fresh : t ∉ r.waiters)
      (perm : ws.Perm (t :: r.waiters)) : Move cap r { r with waiters := ws, placing := false }
  | unlock {n : Nat} (locked : r.lock = some n) (idle : r.placing = false) :
      Move cap r { r with
        lock := none
        waiters := r.waiters.drop n
        coming := r.coming ∪ (r.waiters.take n).toFinset }
  | expire (t : T) (mem : t ∈ r.waiters) :
      Move cap r { r with waiters := r.waiters.erase t, coming := insert t r.coming }

/-- One move after the other. -/
inductive Moves (cap : Nat) : Room T → Room T → Prop where
  | refl (r : Room T) : Moves cap r r
  | tail {r s t : Room T} : Moves cap r s → Move cap s t → Moves cap r t

theorem Move.moves {cap : Nat} {r s : Room T} (h : Move cap r s) : Moves cap r s := .tail (.refl r) h

/-- Every unit has someone who comes for it, or is counted, while someone waits or is about to. -/
structure Room.Inv (cap : Nat) (r : Room T) : Prop where
  nodup : r.waiters.Nodup
  apart : ∀ t ∈ r.waiters, t ∉ r.coming
  idle : r.lock = none → r.placing = false
  free : r.lock = none → r.waiters ≠ [] → r.avail ≤ r.coming.card
  locked : ∀ n, r.lock = some n → r.waiters ≠ [] ∨ r.placing = true → cap ≤ n ∨ r.avail ≤ r.coming.card + n

/-- Waking the first waiter makes good for one more unit. -/
theorem Room.Inv.of_wake {cap : Nat} {r : Room T} (nodup : r.waiters.Nodup) (apart : ∀ t ∈ r.waiters, t ∉ r.coming)
    (free : r.lock = none) (idle : r.placing = false) (hle : r.waiters ≠ [] → r.avail ≤ r.coming.card + 1) :
    r.wake.Inv cap := by
  obtain ⟨avail, lock, placing, waiters, coming⟩ := r
  dsimp only at *
  subst free idle
  cases waiters with
  | nil => refine ⟨?_, ?_, ?_, ?_, ?_⟩ <;> simp [Room.wake]
  | cons t ws =>
    rw [List.nodup_cons] at nodup
    have hout : t ∉ coming := apart t List.mem_cons_self
    refine ⟨nodup.2, fun u hu => ?_, fun _ => rfl, fun _ _ => ?_, fun n hn => by cases hn⟩
    · have hne : u ≠ t := fun he => nodup.1 (he ▸ hu)
      have hu' : u ∉ coming := apart u (List.mem_cons_of_mem _ hu)
      simp [Room.wake, hne, hu']
    · have hcard : (coming ∪ {t}).card = coming.card + 1 := by
        rw [Finset.union_comm, ← Finset.insert_eq, Finset.card_insert_of_notMem hout]
      have := hle (List.cons_ne_nil t ws)
      simp only [Room.wake, List.head?_cons, Option.toFinset_some, hcard]
      exact this

namespace Room.Inv
variable {cap : Nat} {r s : Room T}

/-- Waking as many waiters as units were counted makes good for all of them. -/
theorem unlock [Fintype T] (hcap : Fintype.card T ≤ cap) (h : r.Inv cap) {n : Nat} (locked : r.lock = some n) :
    r.waiters.drop n ≠ [] → r.avail ≤ (r.coming ∪ (r.waiters.take n).toFinset).card := by
  intro hne
  have hlt : n < r.waiters.length := by
    rw [Ne, List.drop_eq_nil_iff] at hne
    omega
  have hfew : r.waiters.length ≤ Fintype.card T := h.nodup.length_le_card
  have hdisj : Disjoint r.coming (r.waiters.take n).toFinset := by
    rw [Finset.disjoint_right]
    intro t ht
    exact h.apart t (List.mem_of_mem_take (List.mem_toFinset.mp ht))
  have htake : (r.waiters.take n).toFinset.card = n := by
    rw [List.toFinset_card_of_nodup (h.nodup.sublist (List.take_sublist ..)), List.length_take]
    omega
  rw [Finset.card_union_of_disjoint hdisj, htake]
  rcases h.locked n locked (.inl (List.ne_nil_of_length_pos (by omega))) with hn | hle
  · omega
  · exact hle

theorem move [Fintype T] (hcap : Fintype.card T ≤ cap) (h : r.Inv cap) (hm : Move cap r s) : s.Inv cap := by
  cases hm with
  | come t out =>
    have hcard : r.coming.card ≤ (insert t r.coming).card := Finset.card_le_card (Finset.subset_insert ..)
    refine ⟨h.nodup, fun u hu => ?_, h.idle, fun hl hw => (h.free hl hw).trans hcard, fun n hl hw => ?_⟩
    · have hne : u ≠ t := fun he => out (he ▸ hu)
      simpa [hne] using h.apart u hu
    · exact (h.locked n hl hw).imp_right fun hle => hle.trans (Nat.add_le_add_right hcard n)
  | leave t none =>
    refine ⟨h.nodup, fun u hu hc => h.apart u hu (Finset.mem_of_mem_erase hc), h.idle, fun _ _ => ?_, fun n _ _ => .inr ?_⟩
    all_goals simp [none]
  | take t mem =>
    have hcard : (r.coming.erase t).card + 1 = r.coming.card := Finset.card_erase_add_one mem
    refine ⟨h.nodup, fun u hu hc => h.apart u hu (Finset.mem_of_mem_erase hc), h.idle, fun hl hw => ?_, fun n hl hw => ?_⟩
    · have := h.free hl hw
      dsimp only
      omega
    · refine (h.locked n hl hw).imp_right fun hle => ?_
      dsimp only
      omega
  | fewer le =>
    exact ⟨h.nodup, h.apart, h.idle, fun hl hw => le.trans (h.free hl hw),
      fun n hl hw => (h.locked n hl hw).imp_right le.trans⟩
  | post free le =>
    exact of_wake h.nodup h.apart free (h.idle free) fun hw => le.trans (Nat.add_le_add_right (h.free free hw) 1)
  | hand t free =>
    have hcard : r.coming.card ≤ (r.coming.erase t).card + 1 :=
      Nat.sub_le_iff_le_add.mp Finset.pred_card_le_card_erase
    exact of_wake h.nodup (fun u hu hc => h.apart u hu (Finset.mem_of_mem_erase hc)) free (h.idle free)
      fun hw => (h.free free hw).trans hcard
  | @count avail n locked le =>
    refine ⟨h.nodup, h.apart, fun hl => (by cases hl), fun hl => (by cases hl), fun m hm hw => ?_⟩
    obtain rfl := Option.some.inj hm
    have := h.locked n locked hw
    dsimp only
    split <;> omega
  | lock free =>
    refine ⟨h.nodup, h.apart, fun hl => (by cases hl), fun hl => (by cases hl), fun n hn hw => .inr ?_⟩
    rcases hw with hw | hp
    · exact (h.free free hw).trans (Nat.le_add_right _ _)
    · rw [h.idle free] at hp
      cases hp
  | check locked none =>
    refine ⟨h.nodup, h.apart, fun hl => ?_, h.free, fun n _ _ => .inr ?_⟩
    · rw [hl] at locked
      cases locked
    · simp [none]
  | @place ws t placing out fresh perm =>
    have hlock : r.lock ≠ none := fun hl => by
      rw [h.idle hl] at placing
      cases placing
    refine ⟨perm.nodup_iff.mpr (List.nodup_cons.mpr ⟨fresh, h.nodup⟩), fun u hu => ?_, fun _ => rfl,
      fun hl => absurd hl hlock, fun n hl _ => h.locked n hl (.inr placing)⟩
    rcases List.mem_cons.mp (perm.mem_iff.mp hu) with rfl | hu
    · exact out
    · exact h.apart u hu
  | @unlock n locked idle =>
    refine ⟨h.nodup.sublist (List.drop_sublist ..), fun u hu => ?_, fun _ => idle, fun _ => h.unlock hcap locked,
      fun m hm => by cases hm⟩
    have hout : u ∉ r.coming := h.apart u (List.mem_of_mem_drop hu)
    have htake : u ∉ r.waiters.take n := fun hu' => by
      have := (List.take_append_drop n r.waiters) ▸ h.nodup
      exact (List.nodup_append.mp this).2.2 u hu' u hu rfl
    simp [hout, htake]
  | expire t mem =>
    have hcard : r.coming.card ≤ (insert t r.coming).card := Finset.card_le_card (Finset.subset_insert ..)
    have hne : r.waiters ≠ [] := List.ne_nil_of_mem mem
    refine ⟨h.nodup.erase t, fun u hu => ?_, h.idle, fun hl _ => (h.free hl hne).trans hcard, fun n hl _ => ?_⟩
    · rw [h.nodup.mem_erase_iff] at hu
      simpa [hu.1] using h.apart u hu.2
    · exact (h.locked n hl (.inl hne)).imp_right fun hle => hle.trans (Nat.add_le_add_right hcard n)

theorem moves [Fintype T] (hcap : Fintype.card T ≤ cap) (h : r.Inv cap) (hm : Moves cap r s) : s.Inv cap := by
  induction hm with
  | refl => exact h
  | tail _ hmove ih => exact ih.move hcap hmove

end Room.Inv

end WaitingRoom
