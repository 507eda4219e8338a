import Mathlib.Tactic

/-! The message between the tasks (`include/time_msg.h`), C string literals as the bytes that
    `uart_puts` sends, and the `printf` conversions that the firmware's format strings use. -/

namespace SpeakingClock

/-- `time_msg`: a time of day in IST. -/
structure TimeMsg where
  hour : UInt8
  minute : UInt8
  second : UInt8
  deriving DecidableEq, Repr

/-- The ranges that `time_msg.h` gives for the fields. -/
def TimeMsg.InRange (m : TimeMsg) : Prop := m.hour < 24 ∧ m.minute < 60 ∧ m.second < 60

instance (m : TimeMsg) : Decidable m.InRange := inferInstanceAs (Decidable (_ ∧ _ ∧ _))

/-- The bytes of a C string. -/
abbrev Bytes := List UInt8

/-- A string literal: its bytes before the terminating NUL. -/
def cstr (s : String) : Bytes := s.toList.map fun c => UInt8.ofNat c.toNat

def lf : UInt8 := 10

def cr : UInt8 := 13

/-! ### `printf` conversions -/

/-- The decimal digits of a number, as `%u` prints them. -/
def fmtU (n : Nat) : Bytes := (Nat.toDigits 10 n).map fun c => UInt8.ofNat c.toNat

/-- `%d`. -/
def fmtD (n : Int) : Bytes := if n < 0 then cstr "-" ++ fmtU n.natAbs else fmtU n.natAbs

/-- `%02d` of a `uint8_t`. -/
def fmt02d (n : UInt8) : Bytes := if n < 10 then cstr "0" ++ fmtU n.toNat else fmtU n.toNat

/-- `%0<width>x`. -/
def fmtHex (width n : Nat) : Bytes :=
  let digits := (Nat.toDigits 16 n).map fun c => UInt8.ofNat c.toNat
  List.replicate (width - digits.length) 48 ++ digits

/-- `%02d:%02d:%02d` of the three fields of a message. -/
def TimeMsg.fmt (m : TimeMsg) : Bytes :=
  fmt02d m.hour ++ cstr ":" ++ fmt02d m.minute ++ cstr ":" ++ fmt02d m.second

/-- A character that `Nat.toDigits` can print in a base up to sixteen. -/
def IsDigit (b : UInt8) : Prop := (48 ≤ b ∧ b ≤ 57) ∨ (97 ≤ b ∧ b ≤ 102)

instance (b : UInt8) : Decidable (IsDigit b) := inferInstanceAs (Decidable (_ ∨ _))

theorem digitChar_isDigit {d : Nat} (h : d < 16) : IsDigit (UInt8.ofNat (Nat.digitChar d).toNat) := by
  interval_cases d <;> decide

theorem toDigits_isDigit {base n : Nat} (hb : 1 < base) (hb' : base ≤ 16) :
    ∀ b ∈ (Nat.toDigits base n).map fun c => UInt8.ofNat c.toNat, IsDigit b := by
  induction n using Nat.strongRecOn with
  | ind n ih =>
    intro b hbm
    rcases Nat.lt_or_ge n base with hn | hn
    · rw [Nat.toDigits_of_lt_base hn] at hbm
      simp only [List.map_cons, List.map_nil, List.mem_singleton] at hbm
      rw [hbm]
      exact digitChar_isDigit (by omega)
    · rw [Nat.toDigits_of_base_le hb hn, List.map_append, List.mem_append] at hbm
      rcases hbm with hbm | hbm
      · exact ih (n / base) (Nat.div_lt_self (by omega) hb) b hbm
      · simp only [List.map_cons, List.map_nil, List.mem_singleton] at hbm
        rw [hbm]
        exact digitChar_isDigit (by have := Nat.mod_lt n (show 0 < base by omega); omega)

end SpeakingClock
