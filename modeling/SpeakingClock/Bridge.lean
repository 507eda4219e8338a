import SpeakingClock.Basic
import SpeakingClock.Lib.Utf8
import SpeakingClock.Lib.LineReader

/-! `scripts/tts_bridge.py`: the host side of the token protocol. `process_line` gathers the words of
    TOKEN lines and speaks them at END; `read_output` takes QEMU's output one byte at a time and hands
    `process_line` each line, decoded and without its carriage returns. -/

namespace SpeakingClock
open PyText LineReader

/-- What `process_line` does to the outside: a call of `speak`, or a line passed through. -/
inductive Effect where
  | speak (sentence : Text)
  | print (line : Text)
  deriving DecidableEq, Repr

def tokenToWord (L : Lowering) (token : Text) : Text :=
  (L.lower token).map fun c => if c = '_' then ' ' else c

/-- The token list after a call of `process_line`, what the call did, and what it returned. -/
structure LineResult where
  tokens : List Text
  effects : List Effect
  ended : Bool
  deriving DecidableEq, Repr

def processLine (L : Lowering) (line : Text) (tokens : List Text) : LineResult :=
  let line := strip line
  if "TOKEN ".toList.isPrefixOf line then
    let word := strip (line.drop 6)
    ⟨if word = [] then tokens else tokens ++ [tokenToWord L word], [], false⟩
  else if line = "END".toList then
    if tokens = [] then ⟨[], [], true⟩ else ⟨[], [.speak (joinBlank tokens)], true⟩
  else ⟨tokens, if line = [] then [] else [.print line], false⟩

/-- The list `tokens` that the calls of `process_line` share, and what they did so far. -/
structure Bridge where
  tokens : List Text
  effects : List Effect
  deriving DecidableEq, Repr

/-- The sentences handed to `speak`, in order. -/
def Bridge.spoken (b : Bridge) : List Text :=
  b.effects.filterMap fun | .speak s => some s | .print _ => none

/-- The text of a line without its carriage returns. -/
def lineText (buf : Bytes) : Text := (decode buf).filter (· ≠ '\r')

/-- What `read_output` does with its buffer at a line feed. -/
def readLine (L : Lowering) (b : Bridge) (buf : Bytes) : Bridge :=
  let r := processLine L (lineText buf) b.tokens
  ⟨r.tokens, b.effects ++ r.effects⟩

/-- `read_output` on a stream of bytes, from the token list `tokens` and an empty buffer. -/
def readOutput (L : Lowering) (tokens : List Text) (stream : Bytes) : Reader UInt8 Bridge :=
  (Reader.mk [] ⟨tokens, []⟩).feeds lf (readLine L) stream

/-! ### The two modes

Both call `process_line` on one line after the other and then speak the tokens left over. Text read from
`sys.stdin` is decoded first and cut into lines after; a line keeps its newline, and the last may lack it. -/

/-- One call of `process_line`. -/
def Bridge.line (L : Lowering) (b : Bridge) (line : Text) : Bridge :=
  let r := processLine L line b.tokens
  ⟨r.tokens, b.effects ++ r.effects⟩

/-- The end of either mode. -/
def Bridge.flush (b : Bridge) : Bridge :=
  if b.tokens = [] then b else { b with effects := b.effects ++ [.speak (joinBlank b.tokens)] }

/-- The newline translation of a text file. -/
def universalNewlines : Text → Text
  | [] => []
  | '\r' :: '\n' :: t => '\n' :: universalNewlines t
  | c :: t => (if c = '\r' then '\n' else c) :: universalNewlines t

/-- `for line in sys.stdin`. -/
def stdinLines (L : Lowering) (text : Text) : Bridge :=
  let r := (Reader.mk [] (Bridge.mk [] [])).feeds '\n' (fun b l => b.line L (l ++ ['\n'])) text
  if r.buf = [] then r.st else r.st.line L r.buf

/-- None: `stdin` cannot be decoded. -/
def pipeMode (L : Lowering) (stdin : Bytes) : Option Bridge :=
  (decode? stdin).map fun text => (stdinLines L (universalNewlines text)).flush

/-- `interactive_mode` as far as QEMU's output goes. -/
def interactiveMode (L : Lowering) (stdout : Bytes) : Bridge := (readOutput L [] stdout).st.flush

/-! ### What is spoken

The lines passed through have no part in the protocol, so most results are about the token list and
the spoken sentences only (`Voice`). -/

/-- The token list and the sentences spoken so far. -/
structure Voice where
  tokens : List Text
  spoken : List Text
  deriving DecidableEq, Repr

def Bridge.voice (b : Bridge) : Voice := ⟨b.tokens, b.spoken⟩

def hearLine (L : Lowering) (v : Voice) (buf : Bytes) : Voice :=
  (readLine L ⟨v.tokens, v.spoken.map .speak⟩ buf).voice

/-- `readOutput` as far as it can be heard. -/
def hear (L : Lowering) (v : Voice) (stream : Bytes) : Reader UInt8 Voice :=
  (Reader.mk [] v).feeds lf (hearLine L) stream

/-- A line, as it stands in the buffer, that `process_line` takes for neither a token nor the end. -/
structure Foreign (l : Bytes) : Prop where
  no_lf : lf ∉ l
  not_token : ¬"TOKEN ".toList <+: strip (lineText l)
  not_end : strip (lineText l) ≠ "END".toList

section
variable {L : Lowering} {v : Voice} {l : Bytes}

theorem readLine_voice (b : Bridge) (buf : Bytes) : (readLine L b buf).voice = hearLine L b.voice buf := by
  simp [hearLine, readLine, Bridge.voice, Bridge.spoken, List.filterMap_append, List.filterMap_map]

/-- What `read_output` speaks and leaves in the token list is what can be heard. -/
theorem readOutput_voice (tokens : List Text) (stream : Bytes) :
    (readOutput L tokens stream).st.voice = (hear L ⟨tokens, []⟩ stream).st := by
  have := @feeds_map _ _ _ lf (readLine L) ⟨[], ⟨tokens, []⟩⟩ _ Bridge.voice _ readLine_voice stream
  exact (congrArg Reader.st this).symm

theorem hearLine_eq : hearLine L v l =
    if "TOKEN ".toList.isPrefixOf (strip (lineText l)) then
      let word := strip ((strip (lineText l)).drop 6)
      ⟨if word = [] then v.tokens else v.tokens ++ [tokenToWord L word], v.spoken⟩
    else if strip (lineText l) = "END".toList then
      ⟨[], if v.tokens = [] then v.spoken else v.spoken ++ [joinBlank v.tokens]⟩
    else v := by
  have hspoken : ∀ tokens, (Bridge.mk tokens (v.spoken.map .speak)).spoken = v.spoken := fun tokens => by
    simp [Bridge.spoken, List.filterMap_map]
  simp only [hearLine, readLine, processLine]
  split
  · simp [Bridge.voice, hspoken]
  · split
    · split <;> simp_all [Bridge.voice, Bridge.spoken, List.filterMap_append]
    · split <;> simp_all [Bridge.voice, Bridge.spoken, List.filterMap_append]

theorem hearLine_foreign (h : Foreign l) : hearLine L v l = v := by
  have htoken : "TOKEN ".toList.isPrefixOf (strip (lineText l)) = false := by
    rw [Bool.eq_false_iff]
    exact fun hp => h.not_token (List.isPrefixOf_iff_prefix.mp hp)
  rw [hearLine_eq]
  simp only [htoken, h.not_end, Bool.false_eq_true, ↓reduceIte]

theorem hear_spoken_grows (r : Reader UInt8 Voice) (xs : Bytes) :
    r.st.spoken <+: (r.feeds lf (hearLine L) xs).st.spoken := by
  induction xs using List.reverseRecOn with
  | nil => simp
  | append_singleton xs x ih =>
    rw [feeds_snoc]
    unfold Reader.feed
    split
    · refine ih.trans ?_
      rw [hearLine_eq]
      split
      · exact List.prefix_rfl
      · split
        · split
          · exact List.prefix_rfl
          · exact List.prefix_append _ _
        · exact List.prefix_rfl
    · exact ih

end

/-! ### Recognising foreign lines -/

/-- A line of ASCII bytes and then anything: the text of the ASCII part comes first. -/
theorem lineText_ascii_append {xs : Bytes} (ys : Bytes) (h : ∀ b ∈ xs, b.toNat < 0x80 ∧ b ≠ cr) :
    lineText (xs ++ ys) = xs.map ofByte ++ lineText ys := by
  have hkeep : ∀ c ∈ xs.map ofByte, c ≠ '\r' := by
    intro c hc
    obtain ⟨b, hb, rfl⟩ := List.mem_map.mp hc
    intro hcr
    obtain ⟨hlt, hne⟩ := h b hb
    have hn := congrArg Char.toNat hcr
    rw [toNat_ofByte hlt] at hn
    exact hne (UInt8.toNat_inj.mp hn)
  unfold lineText
  rw [decode_ascii_append ys fun b hb => (h b hb).1, List.filter_append,
    List.filter_eq_self.mpr fun c hc => by simpa using hkeep c hc]

/-- A line that, after blanks, begins with a printable character other than `T` and `E` is foreign. -/
theorem Foreign.of_head {pre rest : Bytes} {b : UInt8} (hpre : ∀ x ∈ pre, x = 32)
    (hb : 32 < b.toNat ∧ b.toNat < 127 ∧ b ≠ 84 ∧ b ≠ 69) (hrest : lf ∉ rest) : Foreign (pre ++ b :: rest) := by
  obtain ⟨hlo, hhi, hT, hE⟩ := hb
  have hblank : ∀ x ∈ pre ++ [b], x.toNat < 0x80 ∧ x ≠ cr := by
    intro x hx
    rcases List.mem_append.mp hx with hx | hx
    · rw [hpre x hx]; decide
    · rw [List.mem_singleton.mp hx]
      refine ⟨by omega, fun h => ?_⟩
      rw [h] at hlo
      exact absurd hlo (by decide)
  have htext : lineText (pre ++ b :: rest) = pre.map ofByte ++ ofByte b :: lineText rest := by
    rw [show pre ++ b :: rest = (pre ++ [b]) ++ rest by simp, lineText_ascii_append rest hblank]
    simp
  have hnat : (ofByte b).toNat = b.toNat := toNat_ofByte (by omega)
  have hspace : isSpace (ofByte b) = false := by
    simp only [isSpace, hnat]
    grind
  have hspaces : ∀ c ∈ pre.map ofByte, isSpace c = true := by
    intro c hc
    obtain ⟨x, hx, rfl⟩ := List.mem_map.mp hc
    rw [hpre x hx]
    decide
  have hskip : strip (lineText (pre ++ b :: rest)) = strip (ofByte b :: lineText rest) := by
    rw [htext, strip_spaces_append hspaces]
  obtain ⟨t, ht⟩ := strip_cons hspace (lineText rest)
  have hne : ∀ c : Char, ∀ n : UInt8, c.toNat = n.toNat → b ≠ n → ofByte b ≠ c := by
    intro c n hc hbn hbc
    rw [← hbc, hnat] at hc
    exact hbn (UInt8.toNat_inj.mp hc)
  refine ⟨?_, ?_, ?_⟩
  · simp only [List.mem_append, List.mem_cons, not_or]
    refine ⟨fun h => ?_, fun h => ?_, hrest⟩
    · exact absurd (hpre lf h) (by decide)
    · rw [← h] at hlo
      exact absurd hlo (by decide)
  · rw [hskip, ht]
    rintro ⟨s, hs⟩
    exact hne 'T' 84 rfl hT (List.cons.inj hs).1.symm
  · rw [hskip, ht]
    intro hs
    exact hne 'E' 69 rfl hE (List.cons.inj hs).1

/-- After blanks, the line begins with a printable character other than `T` and `E`. -/
def Headed (l : Bytes) : Prop := (l.dropWhile (· = 32)).head?.any fun b => 32 < b ∧ b < 127 ∧ b ≠ 84 ∧ b ≠ 69

instance (l : Bytes) : Decidable (Headed l) := inferInstanceAs (Decidable (_ = true))

theorem Headed.append {l : Bytes} (h : Headed l) (rest : Bytes) : Headed (l ++ rest) := by
  unfold Headed at h ⊢
  induction l with
  | nil => simp at h
  | cons b l ih =>
    by_cases hb : b = 32
    · simp only [hb, decide_true, List.dropWhile_cons_of_pos, List.cons_append] at h ⊢
      exact ih h
    · simpa [List.dropWhile_cons, hb] using h

theorem Headed.foreign {l : Bytes} (h : Headed l) (hlf : lf ∉ l) : Foreign l := by
  unfold Headed at h
  cases hd : l.dropWhile (· = 32) with
  | nil => simp [hd] at h
  | cons b rest =>
    have hl : l = l.takeWhile (· = 32) ++ b :: rest := by rw [← hd, List.takeWhile_append_dropWhile]
    rw [hl] at hlf ⊢
    refine Foreign.of_head (fun x hx => ?_) ?_ fun hr => hlf (by simp [hr])
    · simpa using List.mem_takeWhile_imp hx
    · simp only [hd, List.head?_cons, Option.any_some, decide_eq_true_eq] at h
      exact ⟨UInt8.lt_iff_toNat_lt.mp h.1, UInt8.lt_iff_toNat_lt.mp h.2.1, h.2.2⟩

theorem Foreign.blank : Foreign [cr] := ⟨by decide, by decide, by decide⟩

end SpeakingClock
