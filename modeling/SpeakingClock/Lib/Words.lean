import Mathlib.Tactic

/-! Little-endian words, and data moved word by word in pieces. Each piece is padded to whole words on
    its own; the word counts of the pieces add up to that of the whole when only the last non-empty
    piece ends inside a word (`Tight`). -/

namespace Words

def leBytes (w : UInt32) : List UInt8 :=
  [UInt8.ofNat w.toNat, UInt8.ofNat (w.toNat / 2 ^ 8), UInt8.ofNat (w.toNat / 2 ^ 16), UInt8.ofNat (w.toNat / 2 ^ 24)]

def leWord (a b c d : UInt8) : UInt32 :=
  UInt32.ofNat (a.toNat + 2 ^ 8 * b.toNat + 2 ^ 16 * c.toNat + 2 ^ 24 * d.toNat)

theorem leBytes_leWord (a b c d : UInt8) : leBytes (leWord a b c d) = [a, b, c, d] := by
  have ha := a.toNat_lt
  have hb := b.toNat_lt
  have hc := c.toNat_lt
  have hd := d.toNat_lt
  have hw : (leWord a b c d).toNat = a.toNat + 2 ^ 8 * b.toNat + 2 ^ 16 * c.toNat + 2 ^ 24 * d.toNat := by
    rw [leWord, UInt32.toNat_ofNat']
    omega
  have low : ∀ (n : Nat) (x : UInt8), n % 2 ^ 8 = x.toNat → UInt8.ofNat n = x := fun n x h =>
    UInt8.toNat_inj.mp (by rw [UInt8.toNat_ofNat', h])
  rw [leBytes, hw, low _ a (by omega), low _ b (by omega), low _ c (by omega), low _ d (by omega)]

def bytesOf (ws : List UInt32) : List UInt8 := ws.flatMap leBytes

@[simp] theorem bytesOf_nil : bytesOf [] = [] := rfl

@[simp] theorem bytesOf_cons (w : UInt32) (ws : List UInt32) : bytesOf (w :: ws) = leBytes w ++ bytesOf ws := rfl

@[simp] theorem bytesOf_append (ws vs : List UInt32) : bytesOf (ws ++ vs) = bytesOf ws ++ bytesOf vs :=
  List.flatMap_append

@[simp] theorem length_bytesOf (ws : List UInt32) : (bytesOf ws).length = 4 * ws.length := by
  induction ws with
  | nil => rfl
  | cons w ws ih =>
    rw [bytesOf_cons, List.length_append, ih]
    simp only [leBytes, List.length_cons, List.length_nil]
    omega

/-- Word `i` of a memory of bytes. -/
def loadWord (mem : Nat → UInt8) (i : Nat) : UInt32 := leWord (mem (4 * i)) (mem (4 * i + 1)) (mem (4 * i + 2)) (mem (4 * i + 3))

theorem bytesOf_loadWord (mem : Nat → UInt8) (k : Nat) :
    bytesOf ((List.range k).map (loadWord mem)) = (List.range (4 * k)).map mem := by
  induction k with
  | zero => rfl
  | succ k ih =>
    have hrange : List.range (4 * (k + 1)) = List.range (4 * k) ++ [4 * k, 4 * k + 1, 4 * k + 2, 4 * k + 3] := by
      rw [show 4 * (k + 1) = 4 * k + 1 + 1 + 1 + 1 by omega]
      simp [List.range_succ]
    rw [List.range_succ, List.map_append, bytesOf_append, ih, hrange, List.map_append]
    simp [bytesOf, loadWord, leBytes_leWord]

/-! ### Pieces -/

/-- How many words hold `n` bytes. -/
def wordCount (n : Nat) : Nat := (n + 3) / 4

/-- Each length that is no multiple of four is followed only by zeros. -/
def Tight : List Nat → Prop
  | [] => True
  | l :: ls => (4 ∣ l ∨ ls.sum = 0) ∧ Tight ls

instance decidableTight : (ls : List Nat) → Decidable (Tight ls)
  | [] => isTrue trivial
  | l :: ls =>
    have := decidableTight ls
    inferInstanceAs (Decidable ((4 ∣ l ∨ ls.sum = 0) ∧ Tight ls))

theorem Tight.head {l : Nat} {ls : List Nat} (h : Tight (l :: ls)) : 4 ∣ l ∨ ls.sum = 0 := h.1

theorem Tight.tail {l : Nat} {ls : List Nat} (h : Tight (l :: ls)) : Tight ls := h.2

theorem Tight.sum_wordCount {ls : List Nat} (h : Tight ls) : (ls.map wordCount).sum = wordCount ls.sum := by
  induction ls with
  | nil => rfl
  | cons l ls ih =>
    rw [List.map_cons, List.sum_cons, List.sum_cons, ih h.tail]
    unfold wordCount
    rcases h.head with ⟨k, rfl⟩ | hzero
    · omega
    · omega

end Words
