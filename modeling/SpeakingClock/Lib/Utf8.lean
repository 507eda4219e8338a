import SpeakingClock.Lib.PyText

/-! UTF-8 text: its encoding, the strict decoder (`bytes.decode('utf-8')`, which raises on the first byte
    that cannot stand where it does), and that both decoders give back the text of its encoding. -/

namespace PyText

def encode (t : Text) : List UInt8 := t.flatMap String.utf8EncodeChar

/-- The bytes are the encoding of a text. -/
def IsUtf8 (w : List UInt8) : Prop := ∃ t, encode t = w

/-- The byte may stand here. -/
def Decoder.accepts (d : Decoder) (b : UInt8) : Bool :=
  match d with
  | .start => b.toNat < 0x80 || (0xC2 ≤ b.toNat && b.toNat < 0xF5)
  | .cont _ _ lo hi => lo ≤ b.toNat && b.toNat ≤ hi

def Decoder.decode? (d : Decoder) : List UInt8 → Option Text
  | [] => if d = .start then some [] else none
  | b :: bs => if d.accepts b then ((d.byte b).2.decode? bs).map ((d.byte b).1 ++ ·) else none

/-- `bytes.decode('utf-8')`: none where it raises. -/
def decode? (bytes : List UInt8) : Option Text := Decoder.start.decode? bytes

/-- From `d`, the bytes complete the character and no other. -/
inductive Spells : Decoder → List UInt8 → Char → Prop where
  | last {d : Decoder} {b : UInt8} {c : Char} : d.accepts b = true → d.byte b = ([c], .start) → Spells d [b] c
  | more {d d' : Decoder} {b : UInt8} {bs : List UInt8} {c : Char} :
      d.accepts b = true → d.byte b = ([], d') → Spells d' bs c → Spells d (b :: bs) c

section
variable {d : Decoder} {bs : List UInt8} {c : Char}

theorem Spells.decode (h : Spells d bs c) (rest : List UInt8) : d.decode (bs ++ rest) = c :: PyText.decode rest := by
  induction h with
  | last _ hbyte => simp [Decoder.decode, hbyte, PyText.decode]
  | more _ hbyte _ ih => simpa [Decoder.decode, hbyte] using ih

theorem Spells.decode? (h : Spells d bs c) (rest : List UInt8) :
    d.decode? (bs ++ rest) = (PyText.decode? rest).map (c :: ·) := by
  induction h with
  | last hacc hbyte => simp [Decoder.decode?, hacc, hbyte, PyText.decode?]
  | more hacc hbyte _ ih => simpa [Decoder.decode?, hacc, hbyte] using ih

end

/-! ### The bytes of a character -/

section
variable {c : Char} {b : UInt8} {bs : List UInt8} {x code lo hi : Nat}

theorem toNat_ofNat_of_lt (n : Nat) (h : n < 256) : (UInt8.ofNat n).toNat = n := by
  rw [UInt8.toNat_ofNat', Nat.mod_eq_of_lt h]

theorem spells_last (hb : b.toNat = x + 0x80) (hlo : lo ≤ x + 0x80) (hhi : x + 0x80 ≤ hi)
    (hc : Char.ofNat (code * 64 + x) = c) : Spells (.cont 1 code lo hi) [b] c := by
  refine .last ?_ ?_
  · simp [Decoder.accepts, hb, hlo, hhi]
  · simp [Decoder.byte, hb, hlo, hhi, hc]

theorem spells_more {need : Nat} (hneed : need ≠ 0) (hb : b.toNat = x + 0x80) (hlo : lo ≤ x + 0x80) (hhi : x + 0x80 ≤ hi)
    (h : Spells (.cont need (code * 64 + x) 0x80 0xBF) bs c) : Spells (.cont (need + 1) code lo hi) (b :: bs) c := by
  refine .more ?_ ?_ h
  · simp [Decoder.accepts, hb, hlo, hhi]
  · simp [Decoder.byte, hb, hlo, hhi, hneed]

/-- A first byte that others follow. -/
theorem spells_first {d : Decoder} (hlo : 0xC2 ≤ b.toNat) (hhi : b.toNat < 0xF5) (hfirst : firstByte b = ([], d))
    (h : Spells d bs c) : Spells .start (b :: bs) c := by
  refine .more ?_ hfirst h
  simp [Decoder.accepts, hlo, hhi]

end

section
variable {v : Nat}

theorem firstByte_two (h : v < 0x800) (hlo : 0x7F < v) :
    firstByte (UInt8.ofNat (v / 64 % 0x20 + 0xC0)) = ([], .cont 1 (v / 64) 0x80 0xBF) := by
  have hb := toNat_ofNat_of_lt (v / 64 % 0x20 + 0xC0) (by omega)
  simp only [firstByte, hb]
  grind

theorem firstByte_three (h : v < 0x10000) :
    firstByte (UInt8.ofNat (v / 4096 % 0x10 + 0xE0)) =
      ([], .cont 2 (v / 4096) (if v < 0x1000 then 0xA0 else 0x80) (if v / 4096 = 0xD then 0x9F else 0xBF)) := by
  have hb := toNat_ofNat_of_lt (v / 4096 % 0x10 + 0xE0) (by omega)
  simp only [firstByte, hb]
  grind

theorem firstByte_four (h : v < 0x110000) :
    firstByte (UInt8.ofNat (v / 262144 % 0x08 + 0xF0)) =
      ([], .cont 3 (v / 262144) (if v < 0x40000 then 0x90 else 0x80) (if v / 262144 = 4 then 0x8F else 0xBF)) := by
  have hb := toNat_ofNat_of_lt (v / 262144 % 0x08 + 0xF0) (by omega)
  simp only [firstByte, hb]
  grind

end

theorem spells_encodeChar (c : Char) : Spells .start (String.utf8EncodeChar c) c := by
  have hvalid : c.toNat < 0xD800 ∨ (0xDFFF < c.toNat ∧ c.toNat < 0x110000) := c.valid
  have hchar : Char.ofNat c.toNat = c := Char.ofNat_toNat c
  have hval : c.val.toNat = c.toNat := rfl
  simp only [String.utf8EncodeChar, hval]
  generalize c.toNat = v at hvalid hchar
  have tail : ∀ n, (UInt8.ofNat (n % 0x40 + 0x80)).toNat = n % 0x40 + 0x80 := fun n => toNat_ofNat_of_lt _ (by omega)
  have hlast : v / 64 * 64 + v % 0x40 = v := by omega
  split
  · have hv := toNat_ofNat_of_lt v (by omega)
    have hlt : v < 0x80 := by omega
    refine .last ?_ ?_
    · simp [Decoder.accepts, hv, hlt]
    · simp [Decoder.byte, firstByte, hv, hlt, hchar]
  · split
    · have hb := toNat_ofNat_of_lt (v / 64 % 0x20 + 0xC0) (by omega)
      refine spells_first (by omega) (by omega) (firstByte_two (by omega) (by omega)) ?_
      exact spells_last (tail v) (by omega) (by omega) (by rw [hlast, hchar])
    · split
      · have hb := toNat_ofNat_of_lt (v / 4096 % 0x10 + 0xE0) (by omega)
        refine spells_first (by omega) (by omega) (firstByte_three (by omega)) ?_
        refine spells_more (by omega) (tail (v / 64)) ?_ ?_ (spells_last (tail v) (by omega) (by omega) ?_)
        · split <;> omega
        · split <;> omega
        · have hmid : v / 4096 * 64 + v / 64 % 0x40 = v / 64 := by omega
          rw [hmid, hlast, hchar]
      · have hb := toNat_ofNat_of_lt (v / 262144 % 0x08 + 0xF0) (by omega)
        refine spells_first (by omega) (by omega) (firstByte_four (by omega)) ?_
        refine spells_more (by omega) (tail (v / 4096)) ?_ ?_
          (spells_more (by omega) (tail (v / 64)) (by omega) (by omega)
            (spells_last (tail v) (by omega) (by omega) ?_))
        · split <;> omega
        · split <;> omega
        · have hhigh : v / 262144 * 64 + v / 4096 % 0x40 = v / 4096 := by omega
          have hmid : v / 4096 * 64 + v / 64 % 0x40 = v / 64 := by omega
          rw [hhigh, hmid, hlast, hchar]

@[simp] theorem encode_nil : encode [] = [] := rfl

theorem encode_cons (c : Char) (t : Text) : encode (c :: t) = String.utf8EncodeChar c ++ encode t := rfl

@[simp] theorem encode_append (t u : Text) : encode (t ++ u) = encode t ++ encode u := List.flatMap_append

/-- Decoding, in either way, gives back what was encoded. -/
theorem decode_encode (t : Text) : decode (encode t) = t := by
  induction t with
  | nil => rfl
  | cons c t ih => rw [encode_cons, decode, (spells_encodeChar c).decode, ih]

theorem decode?_encode (t : Text) : decode? (encode t) = some t := by
  induction t with
  | nil => rfl
  | cons c t ih => rw [encode_cons, decode?, (spells_encodeChar c).decode?, ih, Option.map_some]

/-- A byte of the ASCII range is the whole encoding it stands in. -/
theorem eq_ofByte_of_mem_encodeChar {c : Char} {b : UInt8} (hb : b.toNat < 0x80) (h : b ∈ String.utf8EncodeChar c) :
    c = ofByte b := by
  have hchar : Char.ofNat c.toNat = c := Char.ofNat_toNat c
  have hval : c.val.toNat = c.toNat := rfl
  simp only [String.utf8EncodeChar, hval] at h
  have high : ∀ n k, b = UInt8.ofNat (n + k) → n + k < 256 → 0x80 ≤ k → False := by
    intro n k hbn hlt hk
    rw [hbn, toNat_ofNat_of_lt _ hlt] at hb
    omega
  split at h
  · rw [List.mem_singleton.mp h, ofByte, toNat_ofNat_of_lt _ (by omega), hchar]
  · exfalso
    split at h
    · rcases List.mem_pair.mp h with h | h <;> exact high _ _ h (by omega) (by omega)
    · split at h
      · simp only [List.mem_cons, List.not_mem_nil, or_false] at h
        rcases h with h | h | h <;> exact high _ _ h (by omega) (by omega)
      · simp only [List.mem_cons, List.not_mem_nil, or_false] at h
        rcases h with h | h | h | h <;> exact high _ _ h (by omega) (by omega)

end PyText
