import SpeakingClock.Theorems.Kernel.Lists

/-! What the functions of `list.c` do to the sequences, as the scheduler sees it: where an item is, what is in a
    list, and in which order the turns come. -/

namespace SpeakingClock.Kernel
open Function (update)

namespace Lists
variable {N L : Type} {x y : Lists N L} {n i : N} {l : L} {u v : List N}

/-- The items of a list have rising values. -/
def Sorted (x : Lists N L) (l : L) : Prop := (x.items l).Pairwise fun i j => x.xItemValue i ≤ x.xItemValue j

variable [DecidableEq N]

/-- The turns, by the place of `pxIndex` in the list. -/
theorem turns_eq (hindex : x.pxIndex l = some i) (hcut : x.items l = u ++ i :: v) : x.turns l = v ++ u ++ [i] := by
  have hnd := x.nodup l
  rw [hcut, List.nodup_middle, List.nodup_cons, List.mem_append, not_or] at hnd
  have hne : ∀ a ∈ u, decide (a ≠ i) = true := by
    intro a ha
    rw [decide_eq_true_eq]
    rintro rfl
    exact hnd.1.1 ha
  unfold turns before
  rw [hindex]
  simp only [hcut, List.dropWhile_append_of_pos hne, List.takeWhile_append_of_pos hne]
  simp

theorem turns_none (hindex : x.pxIndex l = none) : x.turns l = x.items l := by
  unfold turns
  rw [hindex]

theorem turns_congr {k : L} (hitems : y.items k = x.items k) (hindex : y.pxIndex k = x.pxIndex k) :
    y.turns k = x.turns k := by
  unfold turns before
  rw [hitems, hindex]

theorem nodup_turns (x : Lists N L) (l : L) : (x.turns l).Nodup := by
  cases hindex : x.pxIndex l with
  | none =>
    rw [turns_none hindex]
    exact x.nodup l
  | some i =>
    have hcut := x.items_cut (x.index_mem hindex)
    generalize x.before l i = u, ((x.items l).dropWhile (· ≠ i)).tail = v at hcut
    have hperm : (u ++ i :: v).Perm (v ++ u ++ [i]) :=
      List.perm_middle.trans ((List.perm_append_comm.cons i).trans (List.perm_append_singleton i _).symm)
    rw [turns_eq hindex hcut]
    exact hperm.nodup (hcut ▸ x.nodup l)

/-! ### Taking an item from its list -/

/-- `y` is `x` without the item `n`. -/
structure Took (x : Lists N L) (n : N) (y : Lists N L) : Prop where
  container : y.pxContainer = update x.pxContainer n none
  value : y.xItemValue = x.xItemValue
  items : ∀ k, y.items k = (x.items k).erase n
  turns : ∀ k, y.turns k = (x.turns k).erase n

theorem took_self (hfree : x.pxContainer n = none) : Took x n x where
  container := by rw [← hfree, Function.update_eq_self]
  value := rfl
  items k := by
    rw [List.erase_of_not_mem]
    exact not_mem_of_ne (by simp [hfree])
  turns k := by
    rw [List.erase_of_not_mem]
    exact fun hn => not_mem_of_ne (by simp [hfree]) (x.mem_turns.mp hn)

namespace Took

/-- A list that the item is not in stays as it is. -/
theorem items_of_ne (h : x.Took n y) {k : L} (hk : x.pxContainer n ≠ some k) : y.items k = x.items k := by
  rw [h.items, List.erase_of_not_mem (not_mem_of_ne hk)]

theorem turns_of_ne (h : x.Took n y) {k : L} (hk : x.pxContainer n ≠ some k) : y.turns k = x.turns k := by
  rw [h.turns, List.erase_of_not_mem]
  exact fun hn => not_mem_of_ne hk (x.mem_turns.mp hn)

theorem container_of_ne (h : x.Took n y) (hi : i ≠ n) : y.pxContainer i = x.pxContainer i := by
  rw [h.container, Function.update_of_ne hi]

theorem container_self (h : x.Took n y) : y.pxContainer n = none := by
  rw [h.container, Function.update_self]

theorem sorted (h : x.Took n y) (hsorted : x.Sorted l) : y.Sorted l := by
  unfold Sorted at hsorted ⊢
  rw [h.value, h.items]
  exact hsorted.sublist List.erase_sublist

end Took

/-! ### Putting an item into a list -/

/-- `y` is `x` with the item `n`, which was in no list, in the list `l`. -/
structure Put (x : Lists N L) (n : N) (l : L) (y : Lists N L) : Prop where
  container : y.pxContainer = update x.pxContainer n (some l)
  value : y.xItemValue = x.xItemValue
  items : ∀ k ≠ l, y.items k = x.items k
  turns : ∀ k ≠ l, y.turns k = x.turns k

namespace Put

theorem container_of_ne (h : x.Put n l y) (hi : i ≠ n) : y.pxContainer i = x.pxContainer i := by
  rw [h.container, Function.update_of_ne hi]

theorem container_self (h : x.Put n l y) : y.pxContainer n = some l := by
  rw [h.container, Function.update_self]

theorem mem (h : x.Put n l y) {k : L} (hi : i ∈ y.items k) : i = n ∧ k = l ∨ i ∈ x.items k := by
  rw [y.mem_items] at hi
  by_cases hin : i = n
  · subst hin
    rw [h.container_self] at hi
    exact .inl ⟨rfl, (Option.some.inj hi).symm⟩
  · rw [h.container_of_ne hin] at hi
    exact .inr (x.mem_items.mpr hi)

theorem sorted (h : x.Put n l y) {k : L} (hk : k ≠ l) (hsorted : x.Sorted k) : y.Sorted k := by
  unfold Sorted at hsorted ⊢
  rw [h.value, h.items k hk]
  exact hsorted

end Put

/-! ### The next entry -/

/-- `y` is `x` after the turn of the item `n`, with `ts` before its next one. -/
structure Turned (x : Lists N L) (l : L) (n : N) (ts : List N) (y : Lists N L) : Prop where
  container : y.pxContainer = x.pxContainer
  value : y.xItemValue = x.xItemValue
  items : y.items = x.items
  self : y.turns l = ts ++ [n]
  turns : ∀ k ≠ l, y.turns k = x.turns k

/-! ### What the functions do -/

variable [DecidableEq L]

theorem turns_leave (hin : x.pxContainer n = some l) : (x.leave l n hin).turns l = (x.turns l).erase n := by
  have hitems : (x.leave l n hin).items l = (x.items l).erase n := by simp [leave]
  have hcut := x.items_cut (x.mem_items.mpr hin)
  have hindex : (x.leave l n hin).pxIndex l = if x.pxIndex l = some n then (x.before l n).getLast? else x.pxIndex l := by
    simp [leave]
  generalize x.before l n = u, ((x.items l).dropWhile (· ≠ n)).tail = v at hcut hindex
  have hnd := x.nodup l
  rw [hcut, List.nodup_middle, List.nodup_cons, List.mem_append, not_or] at hnd
  have herase : (x.items l).erase n = u ++ v := by
    rw [hcut, List.erase_append_right _ hnd.1.1, List.erase_cons_head]
  rw [herase] at hitems
  cases hi : x.pxIndex l with
  | none =>
    rw [hi, if_neg (by simp)] at hindex
    rw [turns_none hindex, turns_none hi, hitems, herase]
  | some i =>
    rw [hi] at hindex
    by_cases hin' : i = n
    · subst hin'
      rw [if_pos rfl] at hindex
      rw [turns_eq hi hcut]
      have hout : i ∉ v ++ u := by simp [hnd.1]
      rw [List.erase_append_right _ hout]
      rcases List.eq_nil_or_concat u with rfl | ⟨u', j, rfl⟩
      · rw [turns_none hindex, hitems]
        simp
      · rw [List.concat_eq_append] at hindex hitems ⊢
        rw [List.getLast?_concat] at hindex
        rw [turns_eq hindex (u := u') (v := v) (by rw [hitems]; simp)]
        simp
    · rw [if_neg (by simpa using hin')] at hindex
      -- the item at `pxIndex` is before `n` or behind it
      have hmem := x.index_mem hi
      rw [hcut, List.mem_append, List.mem_cons] at hmem
      rcases hmem with hmem | hmem | hmem
      · obtain ⟨u₁, u₂, rfl⟩ := List.append_of_mem hmem
        rw [turns_eq hindex (u := u₁) (v := u₂ ++ v) (by rw [hitems]; simp),
          turns_eq hi (u := u₁) (v := u₂ ++ n :: v) (by rw [hcut]; simp)]
        rw [List.append_assoc, List.append_assoc, List.append_assoc, List.append_assoc]
        rw [List.erase_append_right _ (fun hm => hnd.1.1 (by simp [hm])), List.cons_append, List.erase_cons_head]
      · exact absurd hmem hin'
      · obtain ⟨v₁, v₂, rfl⟩ := List.append_of_mem hmem
        rw [turns_eq hindex (u := u ++ v₁) (v := v₂) (by rw [hitems]; simp),
          turns_eq hi (u := u ++ n :: v₁) (v := v₂) (by rw [hcut]; simp)]
        have hout : n ∉ v₂ := fun hm => hnd.1.2 (by simp [hm])
        have hout' : n ∉ u := hnd.1.1
        simp only [List.append_assoc]
        rw [List.erase_append_right _ hout, List.erase_append_right _ hout', List.cons_append, List.erase_cons_head]

theorem uxListRemove_took (hin : x.pxContainer n = some l) :
    ∃ y, x.uxListRemove n = some ((y.items l).length, y) ∧ Took x n y := by
  have hmem := x.mem_items.mpr hin
  have hitems : (x.leave l n hin).items l = (x.items l).erase n := by simp [leave]
  have hout {k : L} (hk : k ≠ l) : n ∉ x.items k := not_mem_of_ne (by simpa [hin] using hk.symm)
  refine ⟨x.leave l n hin, ?_, rfl, rfl, fun k => ?_, fun k => ?_⟩
  · rw [hitems, List.length_erase_of_mem hmem]
    unfold uxListRemove
    split
    · rename_i hnone
      rw [hin] at hnone
      cases hnone
    · rename_i l' hl'
      obtain rfl : l = l' := Option.some.inj (hin.symm.trans hl')
      rfl
  · by_cases hk : k = l
    · subst hk
      exact hitems
    · rw [List.erase_of_not_mem (hout hk)]
      simp [leave, hk]
  · by_cases hk : k = l
    · subst hk
      exact turns_leave hin
    · rw [List.erase_of_not_mem fun hn => hout hk (x.mem_turns.mp hn)]
      exact turns_congr (by simp [leave, hk]) (by simp [leave, hk])

theorem place_put (hcut : x.items l = u ++ v) (hfree : x.pxContainer n = none) :
    Put x n l (x.place l n u v hcut hfree) where
  container := rfl
  value := rfl
  items k hk := by simp [place, hk]
  turns k hk := turns_congr (by simp [place, hk]) rfl

theorem items_place (hcut : x.items l = u ++ v) (hfree : x.pxContainer n = none) :
    (x.place l n u v hcut hfree).items l = u ++ n :: v := by
  simp [place]

/-- `vListInsertEnd`: the item comes in somewhere in the turns. -/
theorem vListInsertEnd_put (hfree : x.pxContainer n = none) : ∃ y, x.vListInsertEnd l n = some y ∧ Put x n l y ∧
    ∃ u v, x.turns l = u ++ v ∧ y.turns l = u ++ n :: v := by
  unfold vListInsertEnd
  rw [dif_pos hfree]
  split
  · rename_i hindex
    refine ⟨_, rfl, place_put _ hfree, x.items l, [], ?_, ?_⟩
    · rw [turns_none hindex, List.append_nil]
    · have hindex' : (x.place l n (x.items l) [] (List.append_nil _).symm hfree).pxIndex l = none := hindex
      rw [turns_none hindex']
      simp [place]
  · rename_i i hindex
    have hcut := x.items_cut (x.index_mem hindex)
    have hdrop : (x.items l).dropWhile (· ≠ i) = i :: ((x.items l).dropWhile (· ≠ i)).tail := by
      have hsplit : (x.items l).takeWhile (· ≠ i) ++ (x.items l).dropWhile (· ≠ i) = x.items l :=
        List.takeWhile_append_dropWhile
      nth_rewrite 3 [hcut] at hsplit
      exact List.append_cancel_left hsplit
    have hplaced : x.before l i ++ n :: (x.items l).dropWhile (· ≠ i) =
        (x.before l i ++ [n]) ++ i :: ((x.items l).dropWhile (· ≠ i)).tail := by
      rw [List.append_assoc, List.singleton_append, ← hdrop]
    refine ⟨_, rfl, place_put _ hfree, ((x.items l).dropWhile (· ≠ i)).tail ++ x.before l i, [i], turns_eq hindex hcut, ?_⟩
    rw [turns_eq (x := x.place l n _ _ List.takeWhile_append_dropWhile.symm hfree) hindex ((items_place ..).trans hplaced)]
    simp

/-- `vListInsert` keeps a list sorted. -/
theorem vListInsert_put (hfree : x.pxContainer n = none) :
    ∃ y, x.vListInsert l n = some y ∧ Put x n l y ∧ (x.Sorted l → y.Sorted l) := by
  unfold vListInsert
  rw [dif_pos hfree]
  refine ⟨_, rfl, place_put _ hfree, fun hsorted => ?_⟩
  unfold Sorted at hsorted ⊢
  simp only [place, Function.update_self]
  have hcut : (x.items l).takeWhile (fun i => x.xItemValue i ≤ x.xItemValue n) ++
      (x.items l).dropWhile (fun i => x.xItemValue i ≤ x.xItemValue n) = x.items l := List.takeWhile_append_dropWhile
  have hle : ∀ i ∈ (x.items l).takeWhile (fun i => x.xItemValue i ≤ x.xItemValue n), x.xItemValue i ≤ x.xItemValue n := by
    intro i hi
    simpa using List.mem_takeWhile_imp hi
  have hhead := List.head?_dropWhile_not (fun i => x.xItemValue i ≤ x.xItemValue n) (x.items l)
  generalize (x.items l).takeWhile (fun i => x.xItemValue i ≤ x.xItemValue n) = u,
    (x.items l).dropWhile (fun i => x.xItemValue i ≤ x.xItemValue n) = v at hcut hle hhead
  rw [← hcut, List.pairwise_append] at hsorted
  obtain ⟨hu, hv, huv⟩ := hsorted
  have hge : ∀ j ∈ v, x.xItemValue n ≤ x.xItemValue j := by
    intro j hj
    cases v with
    | nil => cases hj
    | cons m v =>
      have hm : x.xItemValue n ≤ x.xItemValue m := by
        refine (UInt32.le_total _ _).resolve_right fun hle => ?_
        simp [hle] at hhead
      rcases List.mem_cons.mp hj with rfl | hj
      · exact hm
      · exact UInt32.le_trans hm ((List.pairwise_cons.mp hv).1 j hj)
  refine List.pairwise_append.mpr ⟨hu, List.pairwise_cons.mpr ⟨hge, hv⟩, fun i hi j hj => ?_⟩
  rcases List.mem_cons.mp hj with rfl | hj
  · exact hle i hi
  · exact huv i hi j hj

theorem listGetNextEntry_turned {ts : List N} (hhead : x.turns l = n :: ts) :
    ∃ y, x.listGetNextEntry l = some (n, y) ∧ x.Turned l n ts y := by
  have hmem : n ∈ x.items l := x.mem_turns.mp (hhead ▸ List.mem_cons_self)
  refine ⟨x.turnTo l n hmem, ?_, rfl, rfl, rfl, ?_, fun k hk => ?_⟩
  · unfold listGetNextEntry
    split
    · rename_i hnil
      rw [hhead] at hnil
      cases hnil
    · rename_i m ts' hcons
      obtain ⟨rfl, -⟩ := List.cons.inj (hhead.symm.trans hcons)
      rfl
  · have hindex : (x.turnTo l n hmem).pxIndex l = some n := by simp [turnTo]
    have hitems : (x.turnTo l n hmem).items l = x.items l := rfl
    cases hi : x.pxIndex l with
    | none =>
      rw [turns_none hi] at hhead
      rw [turns_eq hindex (u := []) (v := ts) (by rw [hitems, hhead]; rfl)]
      simp
    | some i =>
      have hcut := x.items_cut (x.index_mem hi)
      generalize x.before l i = u, ((x.items l).dropWhile (· ≠ i)).tail = v at hcut
      rw [turns_eq hi hcut] at hhead
      rcases v with - | ⟨m, v⟩
      · rcases u with - | ⟨m, u⟩
        · cases hhead
          rw [turns_eq hindex (u := []) (v := []) (by rw [hitems, hcut])]
          rfl
        · cases hhead
          rw [turns_eq hindex (u := []) (v := u ++ [i]) (by rw [hitems, hcut]; rfl)]
          simp
      · cases hhead
        rw [turns_eq hindex (u := u ++ [i]) (v := v) (by rw [hitems, hcut]; simp)]
        simp
  · exact turns_congr rfl (by simp [turnTo, hk])

end Lists

/-! ### The same, of what simulates the sequences -/

section Simulates
variable {σ N L : Type} [DecidableEq N] [DecidableEq L] [ListImpl σ N L] {R : σ → Lists N L → Prop} [Simulates R]
  {h : σ} {x : Lists N L} {n : N} {l : L}

theorem Lists.length_of (hr : R h x) (l : L) : ListImpl.listCurrentListLength h l = (x.items l).length :=
  Simulates.listCurrentListLength hr

theorem Lists.head_of (hr : R h x) (l : L) : ListImpl.listGetHeadEntry h l = (x.items l).head? :=
  Simulates.listGetHeadEntry hr

theorem Lists.value_of (hr : R h x) (n : N) : ListImpl.listGetListItemValue h n = x.xItemValue n :=
  Simulates.listGetListItemValue hr

theorem Lists.container_of (hr : R h x) (n : N) : ListImpl.listListItemContainer h n = x.pxContainer n :=
  Simulates.listListItemContainer hr

theorem Lists.took_of (hr : R h x) (hin : x.pxContainer n = some l) :
    ∃ h' y, ListImpl.uxListRemove h n = some ((y.items l).length, h') ∧ R h' y ∧ x.Took n y := by
  obtain ⟨y, hy, htook⟩ := x.uxListRemove_took hin
  obtain ⟨h', hh', hr'⟩ := Simulates.uxListRemove hr hy
  exact ⟨h', y, hh', hr', htook⟩

theorem Lists.putEnd_of (hr : R h x) (hfree : x.pxContainer n = none) (l : L) :
    ∃ h' y, ListImpl.vListInsertEnd h l n = some h' ∧ R h' y ∧ x.Put n l y ∧
      ∃ u v, x.turns l = u ++ v ∧ y.turns l = u ++ n :: v := by
  obtain ⟨y, hy, hput⟩ := x.vListInsertEnd_put (l := l) hfree
  obtain ⟨h', hh', hr'⟩ := Simulates.vListInsertEnd hr hy
  exact ⟨h', y, hh', hr', hput⟩

theorem Lists.put_of (hr : R h x) (hfree : x.pxContainer n = none) (l : L) :
    ∃ h' y, ListImpl.vListInsert h l n = some h' ∧ R h' y ∧ x.Put n l y ∧ (x.Sorted l → y.Sorted l) := by
  obtain ⟨y, hy, hput⟩ := x.vListInsert_put (l := l) hfree
  obtain ⟨h', hh', hr'⟩ := Simulates.vListInsert hr hy
  exact ⟨h', y, hh', hr', hput⟩

theorem Lists.next_of (hr : R h x) {ts : List N} (hhead : x.turns l = n :: ts) :
    ∃ h' y, ListImpl.listGetNextEntry h l = some (n, h') ∧ R h' y ∧ x.Turned l n ts y := by
  obtain ⟨y, hy, hturned⟩ := x.listGetNextEntry_turned hhead
  obtain ⟨h', hh', hr'⟩ := Simulates.listGetNextEntry hr hy
  exact ⟨h', y, hh', hr', hturned⟩

end Simulates

end SpeakingClock.Kernel
