import SpeakingClock.Kernel.Lists
import SpeakingClock.Lib.Linked

/-! The pointers of `list.c` are circles through an end marker, one for each list, and each of its functions
    does to them what it does to the sequences that they stand for. -/

namespace SpeakingClock.Kernel
open Function (update)
open Linked

/-- One implementation of the lists does all that the other does: `R` relates their states, and what `τ`
    gives, `σ` gives as well. -/
class Simulates {σ τ N L : Type} [ListImpl σ N L] [ListImpl τ N L] (R : σ → τ → Prop) : Prop where
  vListInsertEnd : ∀ {h s l n s'}, R h s → ListImpl.vListInsertEnd s l n = some s' →
    ∃ h', ListImpl.vListInsertEnd h l n = some h' ∧ R h' s'
  vListInsert : ∀ {h s l n s'}, R h s → ListImpl.vListInsert s l n = some s' →
    ∃ h', ListImpl.vListInsert h l n = some h' ∧ R h' s'
  uxListRemove : ∀ {h s n k s'}, R h s → ListImpl.uxListRemove s n = some (k, s') →
    ∃ h', ListImpl.uxListRemove h n = some (k, h') ∧ R h' s'
  listSetListItemValue : ∀ {h s n v}, R h s →
    R (ListImpl.listSetListItemValue h n v) (ListImpl.listSetListItemValue s n v)
  listGetListItemValue : ∀ {h s n}, R h s → ListImpl.listGetListItemValue h n = ListImpl.listGetListItemValue s n
  listListItemContainer : ∀ {h s n}, R h s → ListImpl.listListItemContainer h n = ListImpl.listListItemContainer s n
  listCurrentListLength : ∀ {h s l}, R h s → ListImpl.listCurrentListLength h l = ListImpl.listCurrentListLength s l
  listGetHeadEntry : ∀ {h s l}, R h s → ListImpl.listGetHeadEntry h l = ListImpl.listGetHeadEntry s l
  listGetNextEntry : ∀ {h s l n s'}, R h s → ListImpl.listGetNextEntry s l = some (n, s') →
    ∃ h', ListImpl.listGetNextEntry h l = some (n, h') ∧ R h' s'

variable {N L : Type}

theorem Lists.not_mem_of_ne {s : Lists N L} {n : N} {l : L} (hl : s.pxContainer n ≠ some l) : n ∉ s.items l :=
  fun hn => hl (s.mem_items.mp hn)

/-- The sequences that the pointers stand for. -/
structure Heap.Holds (h : Heap N L) (s : Lists N L) : Prop where
  circle : ∀ l, Circle h.pxNext h.pxPrevious (.listEnd l) ((s.items l).map .item)
  value : ∀ n, h.xItemValue (.item n) = s.xItemValue n
  endValue : ∀ l, h.xItemValue (.listEnd l) = maxDelay
  container : ∀ n, h.pxContainer n = s.pxContainer n
  index : ∀ l, h.pxIndex l = (s.pxIndex l).elim (.listEnd l) .item
  number : ∀ l, h.uxNumberOfItems l = (s.items l).length

namespace Heap
variable {h h' : Heap N L} {s : Lists N L} {l : L} {n : N} {u v : List N}

theorem holds_initialised (xItemValue : N → UInt32) :
    (initialised (L := L) xItemValue).Holds (Lists.initialised xItemValue) where
  circle _ := .empty rfl rfl
  value _ := rfl
  endValue _ := rfl
  container _ := rfl
  index _ := rfl
  number _ := rfl

/-- The node before a cut, and the one behind it. -/
def lastNode (l : L) (u : List N) : Node N L := (u.map .item).getLastD (.listEnd l)

def headNode (l : L) (v : List N) : Node N L := (v.map .item).headD (.listEnd l)

theorem lastNode_snoc (l : L) (u : List N) (n : N) : lastNode l (u ++ [n]) = .item n := by
  unfold lastNode
  rw [List.map_append, List.map_singleton, List.getLastD_concat]

theorem lastNode_eq (l : L) (u : List N) : lastNode l u = u.getLast?.elim (.listEnd l) .item := by
  unfold lastNode
  rw [List.getLastD_eq_getLast?, List.getLast?_map]
  cases u.getLast? <;> rfl

theorem lastNode_mem (l : L) (u : List N) : lastNode l u ∈ .listEnd l :: u.map Node.item := List.getLastD_mem_cons

theorem headNode_mem (l : L) (v : List N) : headNode l v ∈ .listEnd l :: v.map Node.item := Circle.headD_mem ..

theorem lastNode_ne {l : L} (hn : n ∉ u) : lastNode l u ≠ .item n := by
  intro he
  rcases List.mem_cons.mp (he ▸ lastNode_mem l u) with hm | hm
  · cases hm
  · obtain ⟨m, hm, he⟩ := List.mem_map.mp hm
    cases he
    exact hn hm

theorem headNode_ne {l : L} (hn : n ∉ v) : headNode l v ≠ .item n := by
  intro he
  rcases List.mem_cons.mp (he ▸ headNode_mem l v) with hm | hm
  · cases hm
  · obtain ⟨m, hm, he⟩ := List.mem_map.mp hm
    cases he
    exact hn hm

/-- A node is in the circle of one list only. -/
theorem nodes_apart (s : Lists N L) {k : L} (hk : k ≠ l) {x : Node N L}
    (hx : x ∈ .listEnd l :: (s.items l).map Node.item) : x ∉ .listEnd k :: (s.items k).map Node.item := by
  intro hx'
  rcases List.mem_cons.mp hx with rfl | hx
  · rcases List.mem_cons.mp hx' with he | hx'
    · cases he
      exact hk rfl
    · obtain ⟨m, -, hm⟩ := List.mem_map.mp hx'
      cases hm
  · obtain ⟨m, hm, rfl⟩ := List.mem_map.mp hx
    rcases List.mem_cons.mp hx' with he | hx'
    · cases he
    · obtain ⟨m', hm', he⟩ := List.mem_map.mp hx'
      cases he
      rw [s.mem_items] at hm hm'
      exact hk (Option.some.inj (hm'.symm.trans hm))

theorem lastNode_of_cut (hcut : s.items l = u ++ v) : lastNode l u ∈ .listEnd l :: (s.items l).map Node.item := by
  rw [hcut, List.map_append, ← List.cons_append]
  exact List.mem_append_left _ (lastNode_mem l u)

theorem headNode_of_cut (hcut : s.items l = u ++ v) : headNode l v ∈ .listEnd l :: (s.items l).map Node.item := by
  rw [hcut, List.map_append]
  rcases List.mem_cons.mp (headNode_mem l v) with hm | hm
  · exact hm ▸ List.mem_cons_self
  · exact List.mem_cons_of_mem _ (List.mem_append_right _ hm)

theorem Holds.next_eq (H : h.Holds s) (hcut : s.items l = u ++ v) : h.pxNext (lastNode l u) = headNode l v := by
  have hc := H.circle l
  rw [hcut, List.map_append] at hc
  exact hc.next_eq

theorem Holds.prev_eq (H : h.Holds s) (hcut : s.items l = u ++ v) : h.pxPrevious (headNode l v) = lastNode l u := by
  have hc := H.circle l
  rw [hcut, List.map_append] at hc
  exact hc.prev_eq

/-- The loop of `vListInsert` stops before the first item whose value is greater. -/
theorem Holds.iterate (H : h.Holds s) {val : UInt32} (hval : val ≠ maxDelay) {fuel : Nat} (hcut : s.items l = u ++ v)
    (hfuel : v.length < fuel) : h.iterate val fuel (lastNode l u) =
      some (lastNode l (u ++ v.takeWhile fun i => s.xItemValue i ≤ val)) := by
  induction fuel generalizing u v with
  | zero => cases hfuel
  | succ fuel ih =>
    unfold Heap.iterate
    rw [H.next_eq hcut]
    cases v with
    | nil =>
      have hend : ¬maxDelay ≤ val := by
        intro hle
        apply hval
        have hmax : maxDelay.toNat = 2 ^ 32 - 1 := rfl
        have hlt := val.toNat_lt
        rw [UInt32.le_iff_toNat_le] at hle
        apply UInt32.toNat_inj.mp
        omega
      rw [show headNode l ([] : List N) = .listEnd l from rfl, H.endValue, if_neg hend, List.takeWhile_nil, List.append_nil]
    | cons i v =>
      rw [show headNode l (i :: v) = .item i from rfl, H.value]
      by_cases hle : s.xItemValue i ≤ val
      · rw [if_pos hle, ← lastNode_snoc l u i,
          ih (by rw [hcut, List.append_assoc, List.singleton_append]) (by simp at hfuel; omega),
          List.takeWhile_cons_of_pos (by simpa using hle), List.append_assoc, List.singleton_append]
      · rw [if_neg hle, List.takeWhile_cons_of_neg (by simpa using hle), List.append_nil]

variable [DecidableEq N] [DecidableEq L]

/-- What the stores of both insertions come to: the item is between two nodes. -/
theorem Holds.place (H : h.Holds s) (hcut : s.items l = u ++ v) (hfree : s.pxContainer n = none)
    (hnext : ∀ x, h'.pxNext x = if x = lastNode l u then .item n else if x = .item n then headNode l v else h.pxNext x)
    (hprev : ∀ x, h'.pxPrevious x =
      if x = headNode l v then .item n else if x = .item n then lastNode l u else h.pxPrevious x)
    (hvalue : h'.xItemValue = h.xItemValue) (hcontainer : h'.pxContainer = update h.pxContainer n (some l))
    (hindex : h'.pxIndex = h.pxIndex)
    (hnumber : h'.uxNumberOfItems = update h.uxNumberOfItems l (h.uxNumberOfItems l + 1)) :
    h'.Holds (s.place l n u v hcut hfree) := by
  have hout (k : L) : Node.item n ∉ .listEnd k :: (s.items k).map Node.item := by
    intro hm
    rcases List.mem_cons.mp hm with he | hm
    · cases he
    · obtain ⟨m, hm, he⟩ := List.mem_map.mp hm
      cases he
      exact Lists.not_mem_of_ne (by simp [hfree]) hm
  refine ⟨fun k => ?_, fun m => ?_, fun k => ?_, fun m => ?_, fun k => ?_, fun k => ?_⟩
  · by_cases hk : k = l
    · subst hk
      have hc := H.circle k
      have hout := hout k
      rw [hcut, List.map_append] at hc hout
      simpa only [Lists.place, Function.update_self, List.map_append, List.map_cons] using hc.insert hout hnext hprev
    · simp only [Lists.place, Function.update_of_ne hk]
      refine (H.circle k).congr (fun x hx => ?_) fun x hx => ?_
      · rw [hnext, if_neg, if_neg]
        · rintro rfl
          exact hout k hx
        · rintro rfl
          exact nodes_apart s hk (lastNode_of_cut hcut) hx
      · rw [hprev, if_neg, if_neg]
        · rintro rfl
          exact hout k hx
        · rintro rfl
          exact nodes_apart s hk (headNode_of_cut hcut) hx
  · rw [hvalue]
    exact H.value m
  · rw [hvalue]
    exact H.endValue k
  · simp only [hcontainer, Lists.place, update, H.container]
  · rw [hindex]
    exact H.index k
  · rw [hnumber]
    by_cases hk : k = l
    · subst hk
      simp only [Lists.place, Function.update_self, H.number, hcut, List.length_append, List.length_cons]
      omega
    · simp only [Lists.place, Function.update_of_ne hk, H.number]

theorem Holds.vListInsertEnd (H : h.Holds s) {s' : Lists N L} (hs : s.vListInsertEnd l n = some s') :
    (h.vListInsertEnd l n).Holds s' := by
  unfold Lists.vListInsertEnd at hs
  split at hs
  · rename_i hfree
    -- `pxIndex` is the node behind the place, wherever that is.
    have hstores {u v : List N} (hcut : s.items l = u ++ v) (hindex : h.pxIndex l = headNode l v) :
        (h.vListInsertEnd l n).Holds (s.place l n u v hcut hfree) := by
      have hne : headNode l v ≠ .item n :=
        headNode_ne fun hm => Lists.not_mem_of_ne (by simp [hfree]) (hcut ▸ List.mem_append_right u hm)
      refine H.place hcut hfree (fun x => ?_) (fun x => ?_) rfl rfl rfl rfl
      · simp only [Heap.vListInsertEnd, setNumberOfItems, setContainer, setPrevious, setNext, hindex, update,
          H.prev_eq hcut, hne, eq_rec_constant, dite_eq_ite, if_false]
      · simp only [Heap.vListInsertEnd, setNumberOfItems, setContainer, setPrevious, setNext, hindex, update,
          H.prev_eq hcut, hne, eq_rec_constant, dite_eq_ite, if_false]
    split at hs
    · rename_i hi
      cases hs
      refine hstores _ ?_
      rw [H.index, hi]
      rfl
    · rename_i i hi
      cases hs
      refine hstores _ ?_
      have hhead := List.head?_dropWhile_not (· ≠ i) (s.items l)
      rw [H.index, hi]
      have hcut := s.items_cut (s.index_mem hi)
      cases hrest : (s.items l).dropWhile (· ≠ i) with
      | nil =>
        have := List.takeWhile_append_dropWhile (p := (· ≠ i)) (l := s.items l)
        rw [hrest, List.append_nil] at this
        have := List.mem_takeWhile_imp (this ▸ s.index_mem hi)
        simp at this
      | cons j v =>
        rw [hrest] at hhead
        obtain rfl : j = i := by simpa using hhead
        rfl
  · cases hs

theorem Holds.vListInsert (H : h.Holds s) {s' : Lists N L} (hs : s.vListInsert l n = some s') :
    ∃ h', h.vListInsert l n = some h' ∧ h'.Holds s' := by
  unfold Lists.vListInsert at hs
  split at hs
  · rename_i hfree
    cases hs
    have hcut : s.items l = _ ++ _ :=
      (List.takeWhile_append_dropWhile (p := fun i => s.xItemValue i ≤ s.xItemValue n) (l := s.items l)).symm
    have hiter : h.insertionPoint l (s.xItemValue n) =
        some (lastNode l ((s.items l).takeWhile fun i => s.xItemValue i ≤ s.xItemValue n)) := by
      unfold insertionPoint
      split
      · rename_i hmax
        have hall : ((s.items l).takeWhile fun i => s.xItemValue i ≤ s.xItemValue n) = s.items l := by
          rw [List.takeWhile_eq_self_iff, hmax]
          intro i _
          rw [decide_eq_true_eq, UInt32.le_iff_toNat_le]
          exact Nat.le_of_lt_succ (s.xItemValue i).toNat_lt
        have hprev := H.prev_eq (List.append_nil (s.items l)).symm
        rw [hall, ← hprev]
        rfl
      · rename_i hmax
        exact H.iterate hmax (List.nil_append (s.items l)).symm (by rw [H.number]; exact Nat.lt_succ_self _)
    unfold Heap.vListInsert
    rw [H.value, hiter]
    refine ⟨_, rfl, ?_⟩
    have hne : headNode l ((s.items l).dropWhile fun i => s.xItemValue i ≤ s.xItemValue n) ≠ .item n :=
      headNode_ne fun hm => Lists.not_mem_of_ne (by simp [hfree]) ((List.dropWhile_suffix _).subset hm)
    refine H.place hcut hfree (fun x => ?_) (fun x => ?_) rfl rfl rfl rfl
    · simp only [setNumberOfItems, setContainer, setPrevious, setNext, update, H.next_eq hcut, eq_rec_constant,
        dite_eq_ite, if_true]
    · simp only [setNumberOfItems, setContainer, setPrevious, setNext, update, H.next_eq hcut, eq_rec_constant,
        dite_eq_ite, if_true]
      split <;> split <;> simp_all
  · cases hs

/-- What the stores of `uxListRemove` come to: the nodes around the item are neighbours. -/
theorem Holds.leave (H : h.Holds s) (hin : s.pxContainer n = some l) (hbefore : s.before l n = u)
    (hcut : s.items l = u ++ n :: v)
    (hnext : ∀ x, h'.pxNext x = if x = lastNode l u then headNode l v else h.pxNext x)
    (hprev : ∀ x, h'.pxPrevious x = if x = headNode l v then lastNode l u else h.pxPrevious x)
    (hvalue : h'.xItemValue = h.xItemValue) (hcontainer : h'.pxContainer = update h.pxContainer n none)
    (hindex : h'.pxIndex = update h.pxIndex l (if h.pxIndex l = .item n then lastNode l u else h.pxIndex l))
    (hnumber : h'.uxNumberOfItems = update h.uxNumberOfItems l (h.uxNumberOfItems l - 1)) : h'.Holds (s.leave l n hin) := by
  have hnd := s.nodup l
  rw [hcut, List.nodup_middle, List.nodup_cons, List.mem_append, not_or] at hnd
  have herase : (s.items l).erase n = u ++ v := by
    rw [hcut, List.erase_append_right _ hnd.1.1, List.erase_cons_head]
  have hcut' : s.items l = (u ++ [n]) ++ v := by rw [hcut, List.append_assoc, List.singleton_append]
  refine ⟨fun k => ?_, fun m => ?_, fun k => ?_, fun m => ?_, fun k => ?_, fun k => ?_⟩
  · by_cases hk : k = l
    · subst hk
      have hc := H.circle k
      rw [hcut, List.map_append, List.map_cons] at hc
      simpa only [Lists.leave, Function.update_self, herase, List.map_append] using hc.remove hnext hprev
    · simp only [Lists.leave, Function.update_of_ne hk]
      refine (H.circle k).congr (fun x hx => ?_) fun x hx => ?_
      · rw [hnext, if_neg]
        rintro rfl
        exact nodes_apart s hk (lastNode_of_cut hcut) hx
      · rw [hprev, if_neg]
        rintro rfl
        exact nodes_apart s hk (headNode_of_cut hcut') hx
  · rw [hvalue]
    exact H.value m
  · rw [hvalue]
    exact H.endValue k
  · simp only [hcontainer, Lists.leave, update, H.container]
  · rw [hindex]
    by_cases hk : k = l
    · subst hk
      simp only [Lists.leave, Function.update_self, H.index, hbefore]
      cases hi : s.pxIndex k with
      | none => simp
      | some i =>
        by_cases hin : i = n
        · subst hin
          simp [lastNode_eq]
        · simp [hin]
    · simp only [Lists.leave, Function.update_of_ne hk]
      exact H.index k
  · rw [hnumber]
    by_cases hk : k = l
    · subst hk
      simp only [Lists.leave, Function.update_self, H.number, herase]
      simp only [hcut, List.length_append, List.length_cons]
      omega
    · simp only [Lists.leave, Function.update_of_ne hk, H.number]

theorem Holds.uxListRemove (H : h.Holds s) {k : Nat} {s' : Lists N L} (hs : s.uxListRemove n = some (k, s')) :
    ∃ h', h.uxListRemove n = some (k, h') ∧ h'.Holds s' := by
  unfold Lists.uxListRemove at hs
  split at hs
  · cases hs
  · rename_i l hin
    cases hs
    have hmem := s.mem_items.mpr hin
    have hcut := s.items_cut hmem
    generalize hu : s.before l n = u, ((s.items l).dropWhile (· ≠ n)).tail = v at hcut
    have hcut' : s.items l = (u ++ [n]) ++ v := by rw [hcut, List.append_assoc, List.singleton_append]
    have hnext := H.next_eq hcut'
    have hprev := H.prev_eq hcut
    rw [lastNode_snoc] at hnext
    change h.pxPrevious (.item n) = lastNode l u at hprev
    have hnd := s.nodup l
    rw [hcut, List.nodup_middle, List.nodup_cons, List.mem_append, not_or] at hnd
    have hlast : lastNode l u ≠ .item n := lastNode_ne hnd.1.1
    have hhead : headNode l v ≠ .item n := headNode_ne hnd.1.2
    have hin' := (H.container n).trans hin
    simp only [Heap.uxListRemove, hin', Option.map_some]
    refine ⟨_, congrArg some (Prod.ext ?_ rfl), H.leave hin hu hcut (fun x => ?_) (fun x => ?_) ?_ ?_ ?_ ?_⟩
    · split <;> simp [setNumberOfItems, setContainer, setIndex, setPrevious, setNext, H.number]
    · split <;> simp [setNumberOfItems, setContainer, setIndex, setPrevious, setNext, update, hnext, hprev, hhead.symm]
    · split <;> simp [setNumberOfItems, setContainer, setIndex, setPrevious, setNext, update, hnext, hprev]
    · split <;> rfl
    · split <;> rfl
    · split
      · rename_i hi
        change h.pxIndex l = _ at hi
        simp only [setNumberOfItems, setContainer, setIndex, setPrevious, setNext, hi, if_true, hnext, hprev,
          Function.update_of_ne hhead.symm]
      · rename_i hi
        change ¬h.pxIndex l = _ at hi
        rw [if_neg hi, Function.update_eq_self]
        rfl
    · split <;> rfl

theorem Holds.listGetNextEntry (H : h.Holds s) {s' : Lists N L} (hs : s.listGetNextEntry l = some (n, s')) :
    ∃ h', h.listGetNextEntry l = some (n, h') ∧ h'.Holds s' := by
  unfold Lists.listGetNextEntry at hs
  split at hs
  · cases hs
  · rename_i ts hturns
    cases hs
    have hmem := s.mem_turns.mp (hturns ▸ List.mem_cons_self (a := n))
    have hindex : (if h.pxNext (h.pxIndex l) = .listEnd l then h.pxNext (.listEnd l) else h.pxNext (h.pxIndex l)) =
        .item n := by
      have hfirst := H.next_eq (List.nil_append (s.items l)).symm
      change h.pxNext (.listEnd l) = _ at hfirst
      unfold Lists.turns at hturns
      rw [H.index]
      split at hturns
      · rename_i hi
        rw [hi, Option.elim_none, hfirst, hturns]
        exact if_neg fun he => by cases he
      · rename_i i hi
        have hcut := s.items_cut (s.index_mem hi)
        generalize ((s.items l).dropWhile (· ≠ i)).tail = v, s.before l i = u at hcut hturns
        have hnext := H.next_eq (show s.items l = (u ++ [i]) ++ v by rw [hcut, List.append_assoc, List.singleton_append])
        rw [lastNode_snoc] at hnext
        rw [hi, Option.elim_some, hnext]
        cases v with
        | nil =>
          rw [List.nil_append] at hturns
          rw [hfirst, hcut, hturns]
          exact if_pos rfl
        | cons j v =>
          cases hturns
          exact if_neg fun he => by cases he
    refine ⟨h.setIndex l (.item n), ?_, H.circle, H.value, H.endValue, H.container, fun k => ?_, H.number⟩
    · simp only [Heap.listGetNextEntry, hindex]
      rfl
    · by_cases hk : k = l
      · subst hk
        simp only [setIndex, Lists.turnTo, Function.update_self]
        rfl
      · simp only [setIndex, Lists.turnTo, Function.update_of_ne hk]
        exact H.index k

/-- The functions of `list.c` do to the pointers what they do to the sequences. -/
instance : Simulates (Heap.Holds (N := N) (L := L)) where
  vListInsertEnd H hs := ⟨_, rfl, H.vListInsertEnd hs⟩
  vListInsert H hs := H.vListInsert hs
  uxListRemove H hs := H.uxListRemove hs
  listSetListItemValue {h s n v} H := by
    refine ⟨H.circle, fun m => ?_, fun k => ?_, H.container, H.index, H.number⟩
    · simp only [ListImpl.listSetListItemValue, update, H.value, Node.item.injEq, eq_rec_constant]
    · have hne : Node.listEnd k ≠ Node.item n := fun he => by cases he
      exact (Function.update_of_ne hne v h.xItemValue).trans (H.endValue k)
  listGetListItemValue H := H.value _
  listListItemContainer H := H.container _
  listCurrentListLength H := H.number _
  listGetHeadEntry {h s l} H := by
    have hfirst := H.next_eq (List.nil_append (s.items l)).symm
    change h.pxNext (.listEnd l) = _ at hfirst
    simp only [ListImpl.listGetHeadEntry, hfirst]
    cases s.items l <;> rfl
  listGetNextEntry H hs := H.listGetNextEntry hs

end Heap

end SpeakingClock.Kernel
