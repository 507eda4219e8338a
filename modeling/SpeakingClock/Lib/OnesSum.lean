import Mathlib.Tactic
import Mathlib.Data.Nat.Digits.Defs
import Mathlib.Data.Nat.ModEq

/-! Sums of 16-bit words with end-around carry. Such a sum is a number modulo 65535, with two
    representatives of zero, told apart by whether anything but zero was added (`Rep`). A string of bytes
    enters through its value in base 256, so that a split of the string is a shift (`value_append`) and a
    swap of the two bytes of a sum is a multiplication by 256 (`Rep.swap`). -/

namespace OnesSum

/-- `x` is the 16-bit sum of words that add up to `n`. -/
structure Rep (x n : Nat) : Prop where
  lt : x < 65536
  modEq : x ≡ n [MOD 65535]
  zero : x = 0 ↔ n = 0

theorem Rep.unique {x y n m : Nat} (hx : Rep x n) (hy : Rep y m) (hmod : n ≡ m [MOD 65535])
    (hzero : n = 0 ↔ m = 0) : x = y := by
  have hxy : x % 65535 = y % 65535 := (hx.modEq.trans hmod).trans hy.modEq.symm
  have hxlt := hx.lt
  have hylt := hy.lt
  have hz : x = 0 ↔ y = 0 := hx.zero.trans (hzero.trans hy.zero.symm)
  omega

theorem Rep.congr {x n m : Nat} (h : Rep x n) (hmod : n ≡ m [MOD 65535]) (hzero : n = 0 ↔ m = 0) : Rep x m :=
  ⟨h.lt, h.modEq.trans hmod, h.zero.trans hzero⟩

theorem Rep.self {x : Nat} (h : x < 65536) : Rep x x := ⟨h, rfl, Iff.rfl⟩

/-- The carries of `n` added back in. -/
theorem modEq_carry (n : Nat) : n / 65536 + n % 65536 ≡ n [MOD 65535] := by
  unfold Nat.ModEq
  omega

theorem Rep.carry {n : Nat} (h : n ≤ 2 * 65535) : Rep (n / 65536 + n % 65536) n := by
  refine ⟨by omega, modEq_carry n, ?_⟩
  omega

theorem Rep.carry_twice {n : Nat} (h : n < 2 ^ 32) :
    Rep ((n / 65536 + n % 65536) / 65536 + (n / 65536 + n % 65536) % 65536) n := by
  refine (Rep.carry (by omega)).congr (modEq_carry n) ?_
  omega

theorem Rep.add {x y n m : Nat} (hx : Rep x n) (hy : Rep y m) : Rep ((x + y) / 65536 + (x + y) % 65536) (n + m) := by
  have hxlt := hx.lt
  have hylt := hy.lt
  have hxz := hx.zero
  have hyz := hy.zero
  refine (Rep.carry (by omega)).congr (hx.modEq.add hy.modEq) ?_
  omega

/-- Swapping the two bytes of a sum multiplies it by 256. -/
theorem Rep.swap {x n : Nat} (h : Rep x n) : Rep (256 * (x % 256) + x / 256) (256 * n) := by
  have hlt := h.lt
  have hz := h.zero
  refine ⟨by omega, ?_, by omega⟩
  have hswap : 256 * (x % 256) + x / 256 ≡ 256 * x [MOD 65535] := by
    unfold Nat.ModEq
    omega
  exact hswap.trans (h.modEq.mul_left 256)

theorem modEq_256_256 (n : Nat) : 256 * (256 * n) ≡ n [MOD 65535] := by
  unfold Nat.ModEq
  omega

/-- The bytes as a number, least significant first. -/
def value (bs : List UInt8) : Nat := Nat.ofDigits 256 (bs.map (·.toNat))

@[simp] theorem value_nil : value [] = 0 := rfl

@[simp] theorem value_cons (b : UInt8) (bs : List UInt8) : value (b :: bs) = b.toNat + 256 * value bs := by
  simp [value, Nat.ofDigits_cons]

theorem value_append (xs ys : List UInt8) : value (xs ++ ys) = value xs + 256 ^ xs.length * value ys := by
  simp [value, Nat.ofDigits_append]

theorem value_pair (a b : UInt8) (bs : List UInt8) :
    value (a :: b :: bs) ≡ a.toNat + 256 * b.toNat + value bs [MOD 65535] := by
  rw [value_cons, value_cons, Nat.mul_add, ← Nat.add_assoc]
  exact (modEq_256_256 (value bs)).add_left _

/-- An even number of bytes before a string does not shift it. -/
theorem modEq_pow_even {k : Nat} (hk : k % 2 = 0) (n : Nat) : 256 ^ k * n ≡ n [MOD 65535] := by
  obtain ⟨j, rfl⟩ := Nat.dvd_of_mod_eq_zero hk
  have hone : 256 ^ (2 * j) ≡ 1 [MOD 65535] := by
    rw [pow_mul]
    exact (show (256 ^ 2 : Nat) ≡ 1 [MOD 65535] by decide).pow j |>.trans (by rw [one_pow])
  simpa using hone.mul_right n

theorem modEq_pow_odd {k : Nat} (hk : k % 2 = 1) (n : Nat) : 256 ^ k * n ≡ 256 * n [MOD 65535] := by
  obtain ⟨j, rfl⟩ : ∃ j, k = j + 1 := ⟨k - 1, by omega⟩
  rw [pow_succ, mul_assoc]
  exact modEq_pow_even (by omega) _

/-- A sum `a` and a string of value `v` behind `k` bytes, once `c` more bytes have shifted them. -/
theorem modEq_shift_even {k : Nat} (hk : k % 2 = 0) (c a v : Nat) :
    256 ^ c * (a + v) ≡ 256 ^ k * (256 ^ c * (a + 256 ^ k * v)) [MOD 65535] :=
  calc 256 ^ c * (a + v)
      ≡ 256 ^ c * (a + 256 ^ k * v) [MOD 65535] := ((modEq_pow_even hk v).symm.add_left a).mul_left _
    _ ≡ 256 ^ k * (256 ^ c * (a + 256 ^ k * v)) [MOD 65535] := (modEq_pow_even hk _).symm

theorem modEq_shift_odd {k : Nat} (hk : k % 2 = 1) (c a v : Nat) :
    256 ^ c * (256 * a + v) ≡ 256 ^ k * (256 ^ c * (a + 256 ^ k * v)) [MOD 65535] :=
  calc 256 ^ c * (256 * a + v)
      ≡ 256 ^ c * (256 * a + 256 * (256 * v)) [MOD 65535] := ((modEq_256_256 v).symm.add_left _).mul_left _
    _ = 256 * (256 ^ c * (a + 256 * v)) := by ring
    _ ≡ 256 * (256 ^ c * (a + 256 ^ k * v)) [MOD 65535] :=
      ((((modEq_pow_odd hk v).symm.add_left a).mul_left _).mul_left _)
    _ ≡ 256 ^ k * (256 ^ c * (a + 256 ^ k * v)) [MOD 65535] := (modEq_pow_odd hk _).symm

/-! ### The sum of a string -/

/-- The big-endian words of a string, its last byte padded with a zero when it stands alone. -/
def words : List UInt8 → List Nat
  | [] => []
  | [a] => [256 * a.toNat]
  | a :: b :: bs => (256 * a.toNat + b.toNat) :: words bs

/-- Addition with end-around carry. -/
def endAround (x y : Nat) : Nat := if x + y < 65536 then x + y else x + y - 65535

/-- The 16-bit one's complement sum of a string. -/
def sum (bs : List UInt8) : Nat := (words bs).foldl endAround 0

theorem Rep.endAround {x y n m : Nat} (hx : Rep x n) (hy : Rep y m) : Rep (endAround x y) (n + m) := by
  have hcarry := hx.add hy
  have hxlt := hx.lt
  have hylt := hy.lt
  have heq : OnesSum.endAround x y = (x + y) / 65536 + (x + y) % 65536 := by
    unfold OnesSum.endAround
    split <;> omega
  rw [heq]
  exact hcarry

theorem Rep.foldl_words {x n : Nat} (h : Rep x n) :
    ∀ bs : List UInt8, ∃ m, Rep ((words bs).foldl OnesSum.endAround x) (n + m) ∧ m ≡ 256 * value bs [MOD 65535] ∧
      (m = 0 ↔ value bs = 0)
  | [] => ⟨0, by simpa [words] using h, by simp [Nat.ModEq], by simp⟩
  | [a] => by
    have ha := a.toNat_lt
    exact ⟨256 * a.toNat, by simpa [words] using h.endAround (Rep.self (by omega)), by simp [Nat.ModEq], by simp⟩
  | a :: b :: bs => by
    have ha := a.toNat_lt
    have hb := b.toNat_lt
    obtain ⟨m, hrep, hmod, hzero⟩ :=
      Rep.foldl_words (h.endAround (Rep.self (x := 256 * a.toNat + b.toNat) (by omega))) bs
    refine ⟨256 * a.toNat + b.toNat + m, ?_, ?_, ?_⟩
    · rw [← Nat.add_assoc]
      exact hrep
    · have hpair := (value_pair a b bs).mul_left 256
      have hb256 : 256 * (256 * b.toNat) ≡ b.toNat [MOD 65535] := modEq_256_256 _
      rw [Nat.mul_add, Nat.mul_add] at hpair
      exact (((hb256.symm.add_left _).add hmod)).trans hpair.symm
    · simp only [value_cons]
      omega

theorem rep_sum (bs : List UInt8) : Rep (sum bs) (256 * value bs) := by
  obtain ⟨m, hrep, hmod, hzero⟩ := (Rep.self (x := 0) (by omega)).foldl_words bs
  rw [Nat.zero_add] at hrep
  refine hrep.congr hmod ?_
  omega

end OnesSum
