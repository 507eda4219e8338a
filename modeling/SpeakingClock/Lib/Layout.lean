import Mathlib.Tactic
import SpeakingClock.Lib.OnesSum
import SpeakingClock.Lib.Ring

/-! Structs laid over bytes. A `Layout` reads any bytes at all as a value and writes a value as its
    bytes; layouts are put together field by field (`pair`) and named by a record (`as`). `get` and `put`
    are the field accesses through a pointer into a memory. -/

structure Layout (α : Type) where
  size : Nat
  enc : α → List UInt8
  dec : List UInt8 → α
  length_enc : ∀ x, (enc x).length = size
  dec_enc : ∀ x bs, dec (enc x ++ bs) = x
  enc_dec : ∀ bs, size ≤ bs.length → enc (dec bs) = bs.take size

namespace Layout
variable {α β : Type}

def u8 : Layout UInt8 where
  size := 1
  enc b := [b]
  dec bs := bs.headD 0
  length_enc _ := rfl
  dec_enc _ _ := rfl
  enc_dec bs h := by
    cases bs with
    | nil => simp at h
    | cons b bs => rfl

/-- One layout after another. -/
def pair (A : Layout α) (B : Layout β) : Layout (α × β) where
  size := A.size + B.size
  enc x := A.enc x.1 ++ B.enc x.2
  dec bs := (A.dec bs, B.dec (bs.drop A.size))
  length_enc x := by rw [List.length_append, A.length_enc, B.length_enc]
  dec_enc x bs := by
    have hdrop : (A.enc x.1 ++ B.enc x.2 ++ bs).drop A.size = B.enc x.2 ++ bs := by
      rw [List.append_assoc, List.drop_left' (A.length_enc x.1)]
    rw [hdrop, B.dec_enc, List.append_assoc, A.dec_enc]
  enc_dec bs h := by
    rw [A.enc_dec bs (by omega), B.enc_dec _ (by rw [List.length_drop]; omega), ← List.take_add]

/-- A layout with its values under other names. -/
def as (A : Layout α) (mk : α → β) (un : β → α) (mk_un : ∀ y, mk (un y) = y) (un_mk : ∀ x, un (mk x) = x) : Layout β where
  size := A.size
  enc y := A.enc (un y)
  dec bs := mk (A.dec bs)
  length_enc y := A.length_enc _
  dec_enc y bs := by rw [A.dec_enc, mk_un]
  enc_dec bs h := by rw [un_mk, A.enc_dec bs h]

/-- A little-endian `u16_t`. -/
def u16 : Layout UInt16 :=
  (pair u8 u8).as (fun x => UInt16.ofNat (x.1.toNat + 256 * x.2.toNat))
    (fun w => (UInt8.ofNat w.toNat, UInt8.ofNat (w.toNat / 256)))
    (fun w => by
      have hw := w.toNat_lt
      apply UInt16.toNat_inj.mp
      simp only [UInt8.toNat_ofNat', UInt16.toNat_ofNat']
      omega)
    (fun x => by
      have h1 := x.1.toNat_lt
      have h2 := x.2.toNat_lt
      apply Prod.ext <;> apply UInt8.toNat_inj.mp <;>
      · simp only [UInt8.toNat_ofNat', UInt16.toNat_ofNat']
        omega)

/-- A little-endian `u32_t`. -/
def u32 : Layout UInt32 :=
  (pair u16 u16).as (fun x => UInt32.ofNat (x.1.toNat + 65536 * x.2.toNat))
    (fun w => (UInt16.ofNat w.toNat, UInt16.ofNat (w.toNat / 65536)))
    (fun w => by
      have hw := w.toNat_lt
      apply UInt32.toNat_inj.mp
      simp only [UInt16.toNat_ofNat', UInt32.toNat_ofNat']
      omega)
    (fun x => by
      have h1 := x.1.toNat_lt
      have h2 := x.2.toNat_lt
      apply Prod.ext <;> apply UInt16.toNat_inj.mp <;>
      · simp only [UInt16.toNat_ofNat', UInt32.toNat_ofNat']
        omega)

theorem enc_injective (A : Layout α) {x y : α} (h : A.enc x = A.enc y) : x = y := by
  have hx := A.dec_enc x []
  rw [h, A.dec_enc y []] at hx
  exact hx.symm

/-- Only the first bytes are read. -/
theorem dec_take (A : Layout α) {bs : List UInt8} (h : A.size ≤ bs.length) : A.dec (bs.take A.size) = A.dec bs := by
  apply A.enc_injective
  rw [A.enc_dec bs h, A.enc_dec _ (by rw [List.length_take]; omega), List.take_take, Nat.min_self]

theorem dec_take_of_le (A : Layout α) {bs : List UInt8} {n : Nat} (h : A.size ≤ bs.length) (hn : A.size ≤ n) :
    A.dec (bs.take n) = A.dec bs := by
  rw [← A.dec_take (show A.size ≤ (bs.take n).length by rw [List.length_take]; omega), List.take_take,
    Nat.min_eq_left hn, A.dec_take h]

/-! ### The numbers that the bytes of a word make -/

open OnesSum

theorem value_u16 (w : UInt16) : value (u16.enc w) = w.toNat := by
  have hw := w.toNat_lt
  show value [UInt8.ofNat w.toNat, UInt8.ofNat (w.toNat / 256)] = _
  simp only [value_cons, value_nil, UInt8.toNat_ofNat']
  omega

theorem value_u32 (w : UInt32) : value (u32.enc w) = w.toNat := by
  have hw := w.toNat_lt
  show value (u16.enc (UInt16.ofNat w.toNat) ++ u16.enc (UInt16.ofNat (w.toNat / 65536))) = _
  rw [value_append, value_u16, value_u16, u16.length_enc]
  simp only [UInt16.toNat_ofNat', show u16.size = 2 from rfl]
  omega

/-! ### Through a pointer -/

/-- The value at the address `a`. -/
def get (A : Layout α) (mem : Int → UInt8) (a : Int) : α := A.dec (Memory.load mem a A.size)

/-- The memory after the value at the address `a` is set. -/
def put (A : Layout α) (mem : Int → UInt8) (a : Int) (x : α) : Int → UInt8 := Memory.store mem a (A.enc x)

end Layout
