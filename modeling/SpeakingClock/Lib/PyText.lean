import Mathlib.Tactic
import Mathlib.Data.List.DropRight

/-! Python's text operations on lists of characters: `bytes.decode('utf-8', errors='replace')`,
    `str.strip`, `str.join` and `str.split(' ')`, and what `str.lower` does to ASCII text.

    The decoder is the automaton of the UTF-8 syntax. A byte that cannot continue the character begun
    before it gives one U+FFFD for that beginning (the maximal valid prefix) and is then read as a
    first byte; an unfinished character at the end gives one U+FFFD. -/

namespace PyText

/-- The text of a Python `str`. -/
abbrev Text := List Char

/-! ### Decoding -/

/-- U+FFFD, what `errors='replace'` puts for a malformed sequence. -/
def replacement : Char := Char.ofNat 0xFFFD

/-- Where the decoder stands between two bytes. -/
inductive Decoder where
  | start  -- between two characters
  /-- Inside a character: `need` more bytes, the value `code` so far, and the range of the next byte. -/
  | cont (need code lo hi : Nat)
  deriving DecidableEq, Repr

/-- The characters a first byte gives at once, and where the decoder stands after it. -/
def firstByte (b : UInt8) : Text × Decoder :=
  let n := b.toNat
  if n < 0x80 then ([Char.ofNat n], .start)
  else if n < 0xC2 then ([replacement], .start)
  else if n < 0xE0 then ([], .cont 1 (n - 0xC0) 0x80 0xBF)
  else if n < 0xF0 then
    ([], .cont 2 (n - 0xE0) (if n = 0xE0 then 0xA0 else 0x80) (if n = 0xED then 0x9F else 0xBF))
  else if n < 0xF5 then
    ([], .cont 3 (n - 0xF0) (if n = 0xF0 then 0x90 else 0x80) (if n = 0xF4 then 0x8F else 0xBF))
  else ([replacement], .start)

/-- One byte: the characters it completes, and where the decoder stands after it. -/
def Decoder.byte (d : Decoder) (b : UInt8) : Text × Decoder :=
  match d with
  | .start => firstByte b
  | .cont need code lo hi =>
    if lo ≤ b.toNat ∧ b.toNat ≤ hi then
      let code := code * 64 + (b.toNat - 0x80)
      if need = 1 then ([Char.ofNat code], .start) else ([], .cont (need - 1) code 0x80 0xBF)
    else (replacement :: (firstByte b).1, (firstByte b).2)

/-- What the decoder still owes at the end of the input. -/
def Decoder.flush : Decoder → Text
  | .start => []
  | .cont .. => [replacement]

def Decoder.decode (d : Decoder) : List UInt8 → Text
  | [] => d.flush
  | b :: bs => (d.byte b).1 ++ (d.byte b).2.decode bs

/-- `bytes.decode('utf-8', errors='replace')`. -/
def decode (bytes : List UInt8) : Text := Decoder.start.decode bytes

def ofByte (b : UInt8) : Char := Char.ofNat b.toNat

theorem toNat_ofByte {b : UInt8} (h : b.toNat < 0x80) : (ofByte b).toNat = b.toNat := by
  have hvalid : b.toNat.isValidChar := Or.inl (by omega)
  rw [ofByte, Char.ofNat, dif_pos hvalid]
  rfl

@[simp] theorem decode_nil : decode [] = [] := rfl

theorem firstByte_ascii {b : UInt8} (h : b.toNat < 0x80) : firstByte b = ([ofByte b], .start) := by
  simp [firstByte, h, ofByte]

/-- An ASCII byte ends whatever stands before it: the decoder flushes and starts again after it. -/
theorem Decoder.decode_append_ascii (d : Decoder) (xs ys : List UInt8) {b : UInt8} (h : b.toNat < 0x80)
    (hd : ∀ need code lo hi, d = .cont need code lo hi → 0x80 ≤ lo) :
    d.decode (xs ++ b :: ys) = d.decode xs ++ ofByte b :: PyText.decode ys := by
  induction xs generalizing d with
  | nil =>
    cases d with
    | start => simp [Decoder.decode, Decoder.byte, firstByte_ascii h, Decoder.flush, PyText.decode]
    | cont need code lo hi =>
      have hlo := hd need code lo hi rfl
      have hout : ¬(lo ≤ b.toNat ∧ b.toNat ≤ hi) := fun hb => by omega
      simp [Decoder.decode, Decoder.byte, hout, firstByte_ascii h, Decoder.flush, PyText.decode]
  | cons x xs ih =>
    have hfirst : ∀ need code lo hi, (firstByte x).2 = .cont need code lo hi → 0x80 ≤ lo := by
      intro need code lo hi hx
      unfold firstByte at hx
      grind
    have hnext : ∀ need code lo hi, (d.byte x).2 = .cont need code lo hi → 0x80 ≤ lo := by
      intro need code lo hi hx
      cases d with
      | start => exact hfirst need code lo hi hx
      | cont => unfold Decoder.byte at hx; grind
    simp only [List.cons_append, Decoder.decode, List.append_assoc]
    rw [ih _ hnext]

theorem decode_append_ascii (xs ys : List UInt8) {b : UInt8} (h : b.toNat < 0x80) :
    decode (xs ++ b :: ys) = decode xs ++ ofByte b :: decode ys :=
  Decoder.start.decode_append_ascii xs ys h (by simp)

theorem decode_cons_ascii (ys : List UInt8) {b : UInt8} (h : b.toNat < 0x80) :
    decode (b :: ys) = ofByte b :: decode ys :=
  decode_append_ascii [] ys h

/-- ASCII bytes decode byte by byte, whatever follows them. -/
theorem decode_ascii_append {xs : List UInt8} (ys : List UInt8) (h : ∀ b ∈ xs, b.toNat < 0x80) :
    decode (xs ++ ys) = xs.map ofByte ++ decode ys := by
  induction xs with
  | nil => rfl
  | cons x xs ih =>
    rw [List.cons_append, decode_cons_ascii _ (h x List.mem_cons_self),
      ih fun b hb => h b (List.mem_cons_of_mem _ hb)]
    rfl

/-! ### Stripping -/

/-- The white space of `str.isspace`. -/
def isSpace (c : Char) : Bool :=
  let n := c.toNat
  (9 ≤ n && n ≤ 13) || (28 ≤ n && n ≤ 32) || n == 0x85 || n == 0xA0 || n == 0x1680 ||
    (0x2000 ≤ n && n ≤ 0x200A) || n == 0x2028 || n == 0x2029 || n == 0x202F || n == 0x205F || n == 0x3000

/-- `str.strip()`. -/
def strip (s : Text) : Text := (s.dropWhile isSpace).rdropWhile isSpace

theorem strip_cons {c : Char} (hc : isSpace c = false) (s : Text) : ∃ t, strip (c :: s) = c :: t := by
  have hdrop : (c :: s).dropWhile isSpace = c :: s := by simp [hc]
  obtain ⟨rest, hrest⟩ := List.rdropWhile_prefix isSpace (c :: s)
  unfold strip
  rw [hdrop]
  rcases hcase : (c :: s).rdropWhile isSpace with _ | ⟨x, t⟩
  · have := List.rdropWhile_eq_nil_iff.mp hcase c List.mem_cons_self
    rw [hc] at this
    cases this
  · rw [hcase, List.cons_append, List.cons.injEq] at hrest
    exact ⟨t, by rw [hrest.1]⟩

theorem strip_space_cons {c : Char} (hc : isSpace c = true) (s : Text) : strip (c :: s) = strip s := by
  simp [strip, hc]

theorem strip_spaces_append {s : Text} (h : ∀ c ∈ s, isSpace c = true) (t : Text) : strip (s ++ t) = strip t := by
  induction s with
  | nil => rfl
  | cons c s ih =>
    rw [List.cons_append, strip_space_cons (h c List.mem_cons_self), ih fun d hd => h d (List.mem_cons_of_mem _ hd)]

theorem strip_append_space {c : Char} (hc : isSpace c = true) (s : Text) : strip (s ++ [c]) = strip s := by
  unfold strip
  rw [List.dropWhile_append]
  split
  · rename_i hs
    rw [List.isEmpty_iff.mp hs, List.dropWhile_cons_of_pos hc]
    rfl
  · rw [List.rdropWhile_concat_pos _ _ _ hc]

theorem strip_of_ends {s : Text} (hhead : ∀ c, s.head? = some c → isSpace c = false)
    (hlast : ∀ c, s.getLast? = some c → isSpace c = false) : strip s = s := by
  have hdrop : s.dropWhile isSpace = s := by
    cases s with
    | nil => rfl
    | cons c s => simp [hhead c rfl]
  unfold strip
  rw [hdrop, List.rdropWhile_eq_self_iff]
  intro hne hlast'
  rw [hlast _ (List.getLast?_eq_getLast_of_ne_nil hne)] at hlast'
  cases hlast'

/-! ### Joining and splitting -/

/-- `' '.join(words)`. -/
def joinBlank (words : List Text) : Text := [' '].intercalate words

@[simp] theorem joinBlank_nil : joinBlank [] = [] := rfl

@[simp] theorem joinBlank_singleton (w : Text) : joinBlank [w] = w := by simp [joinBlank]

theorem joinBlank_cons_cons (w w' : Text) (ws : List Text) :
    joinBlank (w :: w' :: ws) = w ++ ' ' :: joinBlank (w' :: ws) := by
  simp [joinBlank, List.intercalate]

/-- Joining two non-empty lists of words puts one blank between them. -/
theorem joinBlank_append {us vs : List Text} (hu : us ≠ []) (hv : vs ≠ []) :
    joinBlank (us ++ vs) = joinBlank us ++ ' ' :: joinBlank vs := by
  induction us with
  | nil => exact absurd rfl hu
  | cons u us ih =>
    rcases us with _ | ⟨u', us⟩
    · obtain ⟨v, vs, rfl⟩ := List.exists_cons_of_ne_nil hv
      simp [joinBlank_cons_cons]
    · rw [List.cons_append, List.cons_append, joinBlank_cons_cons, joinBlank_cons_cons, ← List.cons_append,
        ih (List.cons_ne_nil _ _)]
      simp

/-- Splitting a joined text at its blanks (`str.split(' ')`) gives the pieces of its words. -/
theorem splitOn_joinBlank {ws : List Text} (hne : ws ≠ []) :
    (joinBlank ws).splitOn ' ' = ws.flatMap (·.splitOn ' ') := by
  induction ws with
  | nil => exact absurd rfl hne
  | cons w ws ih =>
    rcases ws with _ | ⟨w', ws⟩
    · simp
    · rw [joinBlank_cons_cons, List.splitOn_append_cons_self, ih (List.cons_ne_nil _ _)]
      rfl

/-! ### Lower case -/

/-- `str.lower`, as far as its documentation fixes it for ASCII text: what it does to other
    characters is the Unicode case mapping of the interpreter, which nothing here depends on. -/
structure Lowering where
  lower : Text → Text
  lower_ascii : ∀ s : Text, (∀ c ∈ s, c.toNat < 0x80) → lower s = s.map Char.toLower

/-- Lowering that leaves every character outside ASCII alone. -/
def Lowering.ascii : Lowering := ⟨List.map Char.toLower, fun _ _ => rfl⟩

end PyText
