import Mathlib.Tactic

/-! Byte-addressed memory, and items of one size kept in a circle of slots. `contents` are the items from
    one slot on; it is described by what adding and removing an item at either end does to it. -/

namespace Memory
variable {β : Type}

/-- The `n` bytes from the address `a` on. -/
def load (mem : Int → β) (a : Int) (n : Nat) : List β := (List.range n).map fun i : Nat => mem (a + i)

/-- The memory with `xs` written from the address `a` on. -/
def store (mem : Int → β) (a : Int) (xs : List β) (b : Int) : β :=
  if a ≤ b then xs.getD (b - a).toNat (mem b) else mem b

@[simp] theorem length_load (mem : Int → β) (a : Int) (n : Nat) : (load mem a n).length = n := by simp [load]

theorem load_congr {mem mem' : Int → β} {a : Int} {n : Nat} (h : ∀ b, a ≤ b → b < a + n → mem b = mem' b) :
    load mem a n = load mem' a n := by
  simp only [load]
  apply List.map_congr_left
  intro i hi
  have := List.mem_range.mp hi
  exact h _ (by omega) (by omega)

theorem store_of_out {mem : Int → β} {a b : Int} {xs : List β} (h : b < a ∨ a + xs.length ≤ b) :
    store mem a xs b = mem b := by
  rcases h with h | h
  · rw [store, if_neg (by omega)]
  · rw [store]
    split
    · rw [List.getD_eq_getElem?_getD, List.getElem?_eq_none (by omega), Option.getD_none]
    · rfl

theorem load_store_self (mem : Int → β) (a : Int) (xs : List β) : load (store mem a xs) a xs.length = xs := by
  apply List.ext_getElem (by simp)
  intro i hi hx
  simp only [load, List.getElem_map, List.getElem_range, store]
  rw [if_pos (by omega), show (a + i - a).toNat = i by omega, List.getD_eq_getElem?_getD, List.getElem?_eq_getElem hx,
    Option.getD_some]

theorem load_store_of_disjoint {mem : Int → β} {a b : Int} {xs : List β} {n : Nat}
    (h : b + n ≤ a ∨ a + xs.length ≤ b) : load (store mem a xs) b n = load mem b n :=
  load_congr fun c _ _ => store_of_out (by omega)

end Memory

namespace Ring
variable {α β : Type} {n : Nat}

/-- The `count` items from the slot `first` on, with `n` slots in a circle. -/
def contents (slot : Nat → α) (n first count : Nat) : List α :=
  (List.range count).map fun k => slot ((first + k) % n)

@[simp] theorem length_contents (slot : Nat → α) (n first count : Nat) : (contents slot n first count).length = count := by
  simp [contents]

@[simp] theorem contents_zero (slot : Nat → α) (n first : Nat) : contents slot n first 0 = [] := rfl

theorem contents_succ (slot : Nat → α) (n first count : Nat) :
    contents slot n first (count + 1) = slot (first % n) :: contents slot n ((first + 1) % n) count := by
  simp only [contents, List.range_succ_eq_map, List.map_cons, List.map_map, Nat.add_zero]
  congr 1
  apply List.map_congr_left
  intro k _
  simp only [Function.comp_apply, Nat.succ_eq_add_one, Nat.mod_add_mod]
  congr 2
  omega

/-- The slots within one turn are different. -/
theorem slot_ne {first j k : Nat} (hjk : j < k) (hk : k < n) : (first + j) % n ≠ (first + k) % n := by
  intro h
  have hd : n ∣ (first + k) - (first + j) := (Nat.modEq_iff_dvd' (by omega)).mp h
  have := Nat.le_of_dvd (by omega) hd
  omega

theorem contents_congr {slot slot' : Nat → α} {first count : Nat}
    (h : ∀ k < count, slot ((first + k) % n) = slot' ((first + k) % n)) :
    contents slot n first count = contents slot' n first count :=
  List.map_congr_left fun k hk => h k (List.mem_range.mp hk)

/-- An item put into the slot after the last one is the new last one. -/
theorem contents_pushBack {slot slot' : Nat → α} {first count : Nat} (hc : count < n)
    (h : ∀ i, i ≠ (first + count) % n → slot' i = slot i) :
    contents slot' n first (count + 1) = contents slot n first count ++ [slot' ((first + count) % n)] := by
  rw [contents, List.range_succ, List.map_append]
  congr 1
  exact contents_congr fun k hk => h _ (slot_ne hk hc)

/-- An item put into the slot before the first one is the new first one. -/
theorem contents_pushFront {slot slot' : Nat → α} {first count : Nat} (hc : count < n) (hf : first < n)
    (h : ∀ i, i ≠ first → slot' i = slot i) :
    contents slot' n first (count + 1) = slot' first :: contents slot n ((first + 1) % n) count := by
  rw [contents_succ, Nat.mod_eq_of_lt hf]
  congr 1
  refine contents_congr fun k hk => h _ ?_
  rw [Nat.mod_add_mod, Nat.add_assoc, Nat.add_comm 1 k]
  intro he
  have hne : (first + 0) % n ≠ (first + (k + 1)) % n := slot_ne (by omega) (by omega)
  rw [he, Nat.add_zero, Nat.mod_eq_of_lt hf] at hne
  exact hne rfl

/-- The item in the slot `k`, when each has `size` bytes and the first is at `head`. -/
def item (mem : Int → β) (head : Int) (size k : Nat) : List β := Memory.load mem (head + k * size) size

theorem item_store_self {mem : Int → β} {head : Int} {size k : Nat} {xs : List β} (hx : xs.length = size) :
    item (Memory.store mem (head + k * size) xs) head size k = xs := by
  subst hx
  exact Memory.load_store_self ..

theorem item_store_of_ne {mem : Int → β} {head : Int} {size j k : Nat} {xs : List β} (hx : xs.length = size)
    (hjk : j ≠ k) : item (Memory.store mem (head + k * size) xs) head size j = item mem head size j := by
  apply Memory.load_store_of_disjoint
  rw [hx]
  -- One of the two slots ends before the other begins.
  rcases Nat.lt_or_gt_of_ne hjk with h | h
  · left
    have : ((j : Int) + 1) * size ≤ k * size := by exact_mod_cast Nat.mul_le_mul_right size h
    linarith
  · right
    have : ((k : Int) + 1) * size ≤ j * size := by exact_mod_cast Nat.mul_le_mul_right size h
    linarith

/-- Going on by one slot, from the last one back to the head. -/
theorem advance {head : Int} {size k : Nat} (hs : 0 < size) (hk : k < n) :
    (if head + k * size + size ≥ head + (n * size : Nat) then head else head + k * size + size) =
      head + ((k + 1) % n : Nat) * size := by
  rcases Nat.lt_or_ge (k + 1) n with h | h
  · have hlt : (k + 1) * size < n * size := Nat.mul_lt_mul_of_pos_right h hs
    rw [if_neg (by push_cast [add_mul] at hlt ⊢; zify at hlt; linarith), Nat.mod_eq_of_lt h]
    push_cast
    ring
  · obtain rfl : n = k + 1 := by omega
    rw [if_pos (by push_cast; linarith), Nat.mod_self]
    simp

/-- Going back by one slot, from the first one to the last. -/
theorem retreat {head : Int} {size k : Nat} (hs : 0 < size) (hk : k < n) :
    (if head + k * size - size < head then head + (n * size : Nat) - size else head + k * size - size) =
      head + ((k + n - 1) % n : Nat) * size := by
  rcases Nat.eq_zero_or_pos k with rfl | h
  · rw [if_pos (by simp; omega), Nat.mod_eq_of_lt (by omega)]
    push_cast [show 0 + n - 1 = n - 1 by omega, Nat.cast_sub (show 1 ≤ n by omega)]
    ring
  · have hle : size ≤ k * size := Nat.le_mul_of_pos_left size h
    rw [if_neg (by zify at hle; linarith), show k + n - 1 = k - 1 + n by omega, Nat.add_mod_right,
      Nat.mod_eq_of_lt (by omega), Nat.cast_sub (show 1 ≤ k by omega)]
    push_cast
    ring

end Ring
