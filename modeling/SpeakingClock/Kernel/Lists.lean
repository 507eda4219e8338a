import SpeakingClock.Kernel.Blocking
import Mathlib.Data.List.TakeWhile
import Mathlib.Tactic.Tauto

/-! `list.c`: the items of the kernel's lists, and what `tasks.c` does with them. The calls are given twice:
    on the pointers that the code has (`Heap`), and on the sequences that these stand for (`Lists`). What is
    written over `ListImpl` runs on both. A call that the code has to leave undefined (an item inserted
    twice, the head of an empty list) gives none. -/

namespace SpeakingClock.Kernel
open Function (update)

/-- The item value of `xListEnd`, `portMAX_DELAY`. -/
def maxDelay : UInt32 := .ofNat portMaxDelay

/-- The functions and macros of `list.c` and `list.h`, for items `N` and lists `L`. -/
class ListImpl (σ : Type) (N L : outParam Type) where
  vListInsertEnd : σ → L → N → Option σ
  vListInsert : σ → L → N → Option σ
  uxListRemove : σ → N → Option (Nat × σ)
  listSetListItemValue : σ → N → UInt32 → σ
  listGetListItemValue : σ → N → UInt32
  listListItemContainer : σ → N → Option L
  listCurrentListLength : σ → L → Nat
  listGetHeadEntry : σ → L → Option N
  listGetNextEntry : σ → L → Option (N × σ)

section Heap
variable {N L : Type}

/-- What the pointers of a list point to: its items, and the end marker `xListEnd`. -/
inductive Node (N L : Type) where
  | item (n : N)
  | listEnd (l : L)
  deriving DecidableEq

/-- The members of all items and lists. -/
structure Heap (N L : Type) where
  pxNext : Node N L → Node N L
  pxPrevious : Node N L → Node N L
  xItemValue : Node N L → UInt32
  pxContainer : N → Option L
  pxIndex : L → Node N L
  uxNumberOfItems : L → Nat

namespace Heap

/-- Every list after `vListInitialise`, every item after `vListInitialiseItem`. -/
def initialised (xItemValue : N → UInt32) : Heap N L where
  pxNext x := x
  pxPrevious x := x
  xItemValue
    | .item n => xItemValue n
    | .listEnd _ => maxDelay
  pxContainer _ := none
  pxIndex l := .listEnd l
  uxNumberOfItems _ := 0

variable [DecidableEq N] [DecidableEq L]

def setNext (h : Heap N L) (x y : Node N L) : Heap N L := { h with pxNext := update h.pxNext x y }

def setPrevious (h : Heap N L) (x y : Node N L) : Heap N L := { h with pxPrevious := update h.pxPrevious x y }

def setIndex (h : Heap N L) (l : L) (x : Node N L) : Heap N L := { h with pxIndex := update h.pxIndex l x }

def setContainer (h : Heap N L) (n : N) (l : Option L) : Heap N L :=
  { h with pxContainer := update h.pxContainer n l }

def setNumberOfItems (h : Heap N L) (l : L) (k : Nat) : Heap N L :=
  { h with uxNumberOfItems := update h.uxNumberOfItems l k }

def vListInsertEnd (h : Heap N L) (l : L) (n : N) : Heap N L :=
  let pxIndex := h.pxIndex l
  let h := h.setNext (.item n) pxIndex
  let h := h.setPrevious (.item n) (h.pxPrevious pxIndex)
  let h := h.setNext (h.pxPrevious pxIndex) (.item n)
  let h := h.setPrevious pxIndex (.item n)
  let h := h.setContainer n (some l)
  h.setNumberOfItems l (h.uxNumberOfItems l + 1)

/-- The loop of `vListInsert`: none when it goes round more often than `fuel`. -/
def iterate (h : Heap N L) (xValueOfInsertion : UInt32) : Nat → Node N L → Option (Node N L)
  | 0, _ => none
  | fuel + 1, pxIterator =>
    if h.xItemValue (h.pxNext pxIterator) ≤ xValueOfInsertion then iterate h xValueOfInsertion fuel (h.pxNext pxIterator)
    else some pxIterator

/-- The node behind which `vListInsert` puts an item. -/
def insertionPoint (h : Heap N L) (l : L) (xValueOfInsertion : UInt32) : Option (Node N L) :=
  if xValueOfInsertion = maxDelay then some (h.pxPrevious (.listEnd l))
  else h.iterate xValueOfInsertion (h.uxNumberOfItems l + 1) (.listEnd l)

def vListInsert (h : Heap N L) (l : L) (n : N) : Option (Heap N L) :=
  (h.insertionPoint l (h.xItemValue (.item n))).map fun pxIterator =>
    let h := h.setNext (.item n) (h.pxNext pxIterator)
    let h := h.setPrevious (h.pxNext (.item n)) (.item n)
    let h := h.setPrevious (.item n) pxIterator
    let h := h.setNext pxIterator (.item n)
    let h := h.setContainer n (some l)
    h.setNumberOfItems l (h.uxNumberOfItems l + 1)

def uxListRemove (h : Heap N L) (n : N) : Option (Nat × Heap N L) :=
  (h.pxContainer n).map fun l =>
    let h := h.setPrevious (h.pxNext (.item n)) (h.pxPrevious (.item n))
    let h := h.setNext (h.pxPrevious (.item n)) (h.pxNext (.item n))
    let h := if h.pxIndex l = .item n then h.setIndex l (h.pxPrevious (.item n)) else h
    let h := h.setContainer n none
    let h := h.setNumberOfItems l (h.uxNumberOfItems l - 1)
    (h.uxNumberOfItems l, h)

/-- The item that a pointer points to; `xListEnd` has no owner. -/
def item? : Node N L → Option N
  | .item n => some n
  | .listEnd _ => none

def listGetNextEntry (h : Heap N L) (l : L) : Option (N × Heap N L) :=
  let pxIndex := h.pxNext (h.pxIndex l)
  let pxIndex := if pxIndex = .listEnd l then h.pxNext (.listEnd l) else pxIndex
  (item? pxIndex).map fun n => (n, h.setIndex l pxIndex)

instance : ListImpl (Heap N L) N L where
  vListInsertEnd h l n := some (h.vListInsertEnd l n)
  vListInsert := vListInsert
  uxListRemove := uxListRemove
  listSetListItemValue h n v := { h with xItemValue := update h.xItemValue (.item n) v }
  listGetListItemValue h n := h.xItemValue (.item n)
  listListItemContainer h n := h.pxContainer n
  listCurrentListLength h l := h.uxNumberOfItems l
  listGetHeadEntry h l := item? (h.pxNext (.listEnd l))
  listGetNextEntry := listGetNextEntry

end Heap

end Heap

section Lists
variable {N L : Type}

/-- The lists as sequences from the head on, no item in two places. -/
structure Lists (N L : Type) where
  items : L → List N
  pxIndex : L → Option N  -- none: at the end marker
  xItemValue : N → UInt32
  pxContainer : N → Option L
  nodup : ∀ l, (items l).Nodup
  mem_items : ∀ {l n}, n ∈ items l ↔ pxContainer n = some l
  index_mem : ∀ {l n}, pxIndex l = some n → n ∈ items l

namespace Lists

def initialised (xItemValue : N → UInt32) : Lists N L where
  items _ := []
  pxIndex _ := none
  xItemValue := xItemValue
  pxContainer _ := none
  nodup _ := .nil
  mem_items := by simp
  index_mem h := by simp at h

variable [DecidableEq N] [DecidableEq L]

/-- The item `n`, in no list so far, between `u` and `v`. -/
def place (s : Lists N L) (l : L) (n : N) (u v : List N) (hcut : s.items l = u ++ v)
    (hfree : s.pxContainer n = none) : Lists N L where
  items := update s.items l (u ++ n :: v)
  pxIndex := s.pxIndex
  xItemValue := s.xItemValue
  pxContainer := update s.pxContainer n (some l)
  nodup k := by
    by_cases hk : k = l
    · subst hk
      rw [Function.update_self, List.nodup_middle, List.nodup_cons, ← hcut]
      refine ⟨fun hn => ?_, s.nodup k⟩
      rw [s.mem_items, hfree] at hn
      cases hn
    · rw [Function.update_of_ne hk]
      exact s.nodup k
  mem_items {k m} := by
    have hm := s.mem_items (l := k) (n := m)
    by_cases hmn : m = n
    · subst hmn
      rw [hfree] at hm
      by_cases hk : k = l
      · simp [hk]
      · simp [Function.update_of_ne hk, hm, Ne.symm hk]
    · rw [Function.update_of_ne hmn, ← hm]
      by_cases hk : k = l
      · subst hk
        simp [hcut, hmn]
      · rw [Function.update_of_ne hk]
  index_mem {k m} hm := by
    have hm := s.index_mem hm
    by_cases hk : k = l
    · subst hk
      rw [hcut] at hm
      simp at hm ⊢
      tauto
    · rwa [Function.update_of_ne hk]

/-- The items before `n`. -/
def before (s : Lists N L) (l : L) (n : N) : List N := (s.items l).takeWhile (· ≠ n)

/-- Before the item at `pxIndex`, thus last in turn for `listGET_OWNER_OF_NEXT_ENTRY`. -/
def vListInsertEnd (s : Lists N L) (l : L) (n : N) : Option (Lists N L) :=
  if hfree : s.pxContainer n = none then
    match s.pxIndex l with
    | none => some (s.place l n (s.items l) [] (List.append_nil _).symm hfree)
    | some i => some (s.place l n ((s.items l).takeWhile (· ≠ i)) ((s.items l).dropWhile (· ≠ i))
        List.takeWhile_append_dropWhile.symm hfree)
  else none

/-- Behind the items from the head on whose value is not greater. -/
def vListInsert (s : Lists N L) (l : L) (n : N) : Option (Lists N L) :=
  if hfree : s.pxContainer n = none then
    some (s.place l n ((s.items l).takeWhile fun i => s.xItemValue i ≤ s.xItemValue n)
      ((s.items l).dropWhile fun i => s.xItemValue i ≤ s.xItemValue n) List.takeWhile_append_dropWhile.symm hfree)
  else none

/-- The list without the item; `pxIndex` does not stay at it. -/
def leave (s : Lists N L) (l : L) (n : N) (hin : s.pxContainer n = some l) : Lists N L where
  items := update s.items l ((s.items l).erase n)
  pxIndex := update s.pxIndex l (if s.pxIndex l = some n then (s.before l n).getLast? else s.pxIndex l)
  xItemValue := s.xItemValue
  pxContainer := update s.pxContainer n none
  nodup k := by
    by_cases hk : k = l
    · subst hk
      rw [Function.update_self]
      exact (s.nodup k).erase n
    · rw [Function.update_of_ne hk]
      exact s.nodup k
  mem_items {k m} := by
    have hm := s.mem_items (l := k) (n := m)
    by_cases hmn : m = n
    · subst hmn
      rw [hin] at hm
      by_cases hk : k = l
      · simp [hk, (s.nodup l).not_mem_erase]
      · simp [Function.update_of_ne hk, hm, Ne.symm hk]
    · rw [Function.update_of_ne hmn, ← hm]
      by_cases hk : k = l
      · subst hk
        simp [List.mem_erase_of_ne hmn]
      · rw [Function.update_of_ne hk]
  index_mem {k m} hm := by
    by_cases hk : k = l
    · subst hk
      rw [Function.update_self] at hm ⊢
      split at hm
      · have hm := List.mem_of_getLast? hm
        have hne := List.mem_takeWhile_imp hm
        exact (List.mem_erase_of_ne (by simpa using hne)).mpr ((List.takeWhile_prefix _).subset hm)
      · rename_i hne
        exact (List.mem_erase_of_ne fun he : m = n => hne (he ▸ hm)).mpr (s.index_mem hm)
    · rw [Function.update_of_ne hk] at hm ⊢
      exact s.index_mem hm

def uxListRemove (s : Lists N L) (n : N) : Option (Nat × Lists N L) :=
  match hin : s.pxContainer n with
  | none => none
  | some l => some ((s.items l).length - 1, s.leave l n hin)

/-- The items in the order in which `listGET_OWNER_OF_NEXT_ENTRY` comes to them. -/
def turns (s : Lists N L) (l : L) : List N :=
  match s.pxIndex l with
  | none => s.items l
  | some i => ((s.items l).dropWhile (· ≠ i)).tail ++ s.before l i ++ [i]

/-- `pxIndex` at another item of the list. -/
def turnTo (s : Lists N L) (l : L) (n : N) (hin : n ∈ s.items l) : Lists N L :=
  { s with
    pxIndex := update s.pxIndex l (some n)
    index_mem := fun {k m} hm => by
      by_cases hk : k = l
      · subst hk
        rw [Function.update_self] at hm
        cases hm
        exact hin
      · rw [Function.update_of_ne hk] at hm
        exact s.index_mem hm }

omit [DecidableEq L] in
/-- The items around `n`. -/
theorem items_cut (s : Lists N L) {l : L} {n : N} (hin : n ∈ s.items l) :
    s.items l = s.before l n ++ n :: ((s.items l).dropWhile (· ≠ n)).tail := by
  have hcut : s.items l = s.before l n ++ (s.items l).dropWhile (· ≠ n) := List.takeWhile_append_dropWhile.symm
  have hhead := List.head?_dropWhile_not (· ≠ n) (s.items l)
  cases hrest : (s.items l).dropWhile (· ≠ n) with
  | nil =>
    rw [hcut, hrest, List.append_nil] at hin
    have := List.mem_takeWhile_imp hin
    simp at this
  | cons m v =>
    rw [hrest] at hhead
    obtain rfl : m = n := by simpa using hhead
    rw [List.tail_cons, ← hrest]
    exact hcut

omit [DecidableEq L] in
theorem mem_turns (s : Lists N L) {l : L} {n : N} : n ∈ s.turns l ↔ n ∈ s.items l := by
  unfold turns
  split
  · rfl
  · rename_i i hi
    conv_rhs => rw [s.items_cut (s.index_mem hi)]
    simp only [List.mem_append, List.mem_cons]
    tauto

def listGetNextEntry (s : Lists N L) (l : L) : Option (N × Lists N L) :=
  match h : s.turns l with
  | [] => none
  | n :: _ => some (n, s.turnTo l n (s.mem_turns.mp (h ▸ List.mem_cons_self)))

instance : ListImpl (Lists N L) N L where
  vListInsertEnd := vListInsertEnd
  vListInsert := vListInsert
  uxListRemove := uxListRemove
  listSetListItemValue s n v := { s with xItemValue := update s.xItemValue n v }
  listGetListItemValue s n := s.xItemValue n
  listListItemContainer s n := s.pxContainer n
  listCurrentListLength s l := (s.items l).length
  listGetHeadEntry s l := (s.items l).head?
  listGetNextEntry := listGetNextEntry

end Lists

end Lists

end SpeakingClock.Kernel
