import SpeakingClock.Theorems.Announcement

/-! The token protocol read back. A sentence determines its time (`decodeSentence_sentence`), and a
    stream of announcements, with any foreign lines placed between their lines, is spoken sentence by
    sentence (`speakTime_roundTrip`). -/

namespace SpeakingClock
open PyText LineReader

/-! ### A decoder for sentences -/

/-- The blank-separated pieces of a number word. -/
def numberPieces (n : Nat) : List Text := (word (numberWords.getD n "")).splitOn ' '

/-- The number that the pieces spell. -/
def numberOf (pieces : List Text) : Option Nat := (List.range 60).find? fun n => numberPieces n = pieces

/-- Read a number up to one of its unit words: the number, and what follows the unit. -/
def decodeField (units : List Text) (ws : List Text) : Option (UInt8 × List Text) :=
  match numberOf (ws.takeWhile (· ∉ units)), ws.dropWhile (· ∉ units) with
  | some n, _ :: rest => some (UInt8.ofNat n, rest)
  | _, _ => none

/-- The time that a sentence announces. -/
def decodeSentence (s : Text) : Option TimeMsg := do
  let ws ← ["the".toList, "time".toList, "is".toList].isPrefixOf? (s.splitOn ' ')
  let (hour, ws) ← decodeField ["hour".toList, "hours".toList] ws
  let (minute, ws) ← decodeField ["minute".toList, "minutes".toList] ws
  let ws ← ["and".toList].isPrefixOf? ws
  let (second, _) ← decodeField ["second".toList, "seconds".toList] ws
  return ⟨hour, minute, second⟩

def unitWords : List Text :=
  ["hour".toList, "hours".toList, "minute".toList, "minutes".toList, "second".toList, "seconds".toList]

theorem numberOf_numberPieces : ∀ n < 60, numberOf (numberPieces n) = some n := by decide +kernel

theorem numberPieces_not_unit : ∀ n < 60, ∀ p ∈ numberPieces n, p ∉ unitWords := by decide +kernel

theorem decodeField_spec {n : UInt8} (h : n < 60) {units : List Text} (hsub : units ⊆ unitWords) {unit : Text}
    (hunit : unit ∈ units) (rest : List Text) :
    decodeField units ((word (numberWord n)).splitOn ' ' ++ unit :: rest) = some (n, rest) := by
  have hn : n.toNat < 60 := UInt8.lt_iff_toNat_lt.mp h
  have hpieces : (word (numberWord n)).splitOn ' ' = numberPieces n.toNat := rfl
  have hskip : ∀ p ∈ numberPieces n.toNat, decide (p ∉ units) = true := fun p hp => by
    simpa using fun hm => numberPieces_not_unit _ hn p hp (hsub hm)
  rw [hpieces, decodeField, List.takeWhile_append_of_pos hskip, List.dropWhile_append_of_pos hskip]
  simp [hunit, numberOf_numberPieces _ hn]

theorem splitOn_unit {one many : String} (h1 : ' ' ∉ word one) (h2 : ' ' ∉ word many) (n : UInt8) :
    (word (if n == 1 then one else many)).splitOn ' ' = [if n == 1 then word one else word many] := by
  cases n == 1
  · exact List.splitOn_eq_singleton h2
  · exact List.splitOn_eq_singleton h1

theorem splitOn_sentence {m : TimeMsg} (h : m.InRange) :
    (sentence m).splitOn ' ' =
      [word tokenThe, word tokenTime, word tokenIs] ++ ((word (numberWord m.hour)).splitOn ' ' ++
        (if m.hour == 1 then word tokenHour else word tokenHours) :: ((word (numberWord m.minute)).splitOn ' ' ++
        (if m.minute == 1 then word tokenMinute else word tokenMinutes) :: ([word tokenAnd] ++
        ((word (numberWord m.second)).splitOn ' ' ++
        [if m.second == 1 then word tokenSecond else word tokenSeconds])))) := by
  have fixed : ∀ t ∈ [tokenThe, tokenTime, tokenIs, tokenAnd], (word t).splitOn ' ' = [word t] := by decide
  rw [sentence, splitOn_joinBlank (timeWords_ne_nil m), timeWords, timeTokens_of_inRange h]
  simp only [List.map_cons, List.map_nil, List.flatMap_cons, List.flatMap_nil]
  rw [splitOn_unit (by decide) (by decide), splitOn_unit (by decide) (by decide),
    splitOn_unit (by decide) (by decide), fixed tokenThe (by simp), fixed tokenTime (by simp),
    fixed tokenIs (by simp), fixed tokenAnd (by simp)]
  simp only [List.cons_append, List.nil_append, List.append_nil]

theorem isPrefixOf?_append (us vs : List Text) : us.isPrefixOf? (us ++ vs) = some vs := by
  induction us with
  | nil => rfl
  | cons u us ih => simp [List.isPrefixOf?, ih]

/-- The decoder recovers the time of every sentence in range. -/
theorem decodeSentence_sentence {m : TimeMsg} (h : m.InRange) : decodeSentence (sentence m) = some m := by
  have hhour : m.hour < 60 := UInt8.lt_trans h.1 (by decide)
  have mem : ∀ (c : Bool) {u v : Text} {units : List Text}, u ∈ units → v ∈ units → (if c then u else v) ∈ units :=
    fun c _ _ _ hu hv => by cases c <;> assumption
  have hthe : ["the".toList, "time".toList, "is".toList] = [word tokenThe, word tokenTime, word tokenIs] := by decide
  have hand : ["and".toList] = [word tokenAnd] := by decide
  rw [decodeSentence, splitOn_sentence h, hthe, hand, isPrefixOf?_append]
  simp only [Option.bind_eq_bind, Option.bind_some]
  rw [decodeField_spec hhour (by decide) (mem _ (by decide) (by decide))]
  simp only [Option.bind_some]
  rw [decodeField_spec h.2.1 (by decide) (mem _ (by decide) (by decide))]
  simp only [Option.bind_some]
  rw [isPrefixOf?_append]
  simp only [Option.bind_some]
  rw [decodeField_spec h.2.2 (by decide) (mem _ (by decide) (by decide))]
  rfl

/-! ### Streams of announcements -/

section
variable {L : Lowering}

theorem flatMap_speakTime (ts : List TimeMsg) : ts.flatMap speakTime = unlines lf (ts.flatMap speakLines) := by
  induction ts with
  | nil => rfl
  | cons t ts ih => rw [List.flatMap_cons, List.flatMap_cons, ih, speakTime_eq_unlines, unlines_append]

theorem flatMap_speakLines_no_lf (ts : List TimeMsg) : ∀ l ∈ ts.flatMap speakLines, lf ∉ l := by
  intro l hl
  obtain ⟨t, -, hl⟩ := List.mem_flatMap.mp hl
  exact speakLines_no_lf t l hl

theorem split_speakTimes (ts : List TimeMsg) : split lf (ts.flatMap speakTime) = ⟨[], ts.flatMap speakLines⟩ := by
  rw [flatMap_speakTime, split_unlines (flatMap_speakLines_no_lf ts)]

theorem foldl_hearLine_announcements (ts : List TimeMsg) (spoken : List Text) :
    (ts.flatMap speakLines).foldl (hearLine L) ⟨[], spoken⟩ = ⟨[], spoken ++ ts.map sentence⟩ := by
  induction ts generalizing spoken with
  | nil => simp
  | cons t ts ih =>
    rw [List.flatMap_cons, List.foldl_append, foldl_hearLine_speakLines, ih]
    simp [sentence]

theorem voice_woven {ls ws : List Bytes} (h : Woven Foreign ls ws) (hls : ∀ l ∈ ls, lf ∉ l) (tokens : List Text) :
    (readOutput L tokens (unlines lf ws)).st.voice = ls.foldl (hearLine L) ⟨tokens, []⟩ := by
  have hno : ∀ l ∈ ws, lf ∉ l := h.forall_mem (fun l hl => hl.no_lf) hls
  rw [readOutput_voice, hear, feeds_unlines hno]
  exact h.foldl_eq (fun l hl v => hearLine_foreign hl) _

/-- **Round trip.** Write the announcements of any times in range, and place any foreign lines before,
    between and inside them. The bridge makes one `speak` call per time, in order, each with a sentence
    that determines the time. From a leftover token list only the first sentence differs, by having
    the leftover before it. -/
theorem speakTime_roundTrip (L : Lowering) (ts : List TimeMsg) (range : ∀ t ∈ ts, t.InRange) (ws : List Bytes)
    (woven : Woven Foreign (split lf (ts.flatMap speakTime)).st ws) :
    unlines lf (split lf (ts.flatMap speakTime)).st = ts.flatMap speakTime ∧
    (readOutput L [] (unlines lf ws)).st.spoken = ts.map sentence ∧
    (∀ t ∈ ts, decodeSentence (sentence t) = some t) ∧
    (∀ t ∈ ts, ∀ t' ∈ ts, sentence t = sentence t' → t = t') ∧
    ∀ leftover : List Text, leftover ≠ [] →
      (readOutput L leftover (unlines lf ws)).st.spoken =
        match ts with
        | [] => []
        | t :: ts => (joinBlank leftover ++ ' ' :: sentence t) :: ts.map sentence := by
  rw [split_speakTimes] at woven ⊢
  have hdec : ∀ t ∈ ts, decodeSentence (sentence t) = some t := fun t ht => decodeSentence_sentence (range t ht)
  have hvoice := voice_woven (L := L) woven (flatMap_speakLines_no_lf ts)
  refine ⟨(flatMap_speakTime ts).symm, ?_, hdec, fun t ht t' ht' heq => ?_, fun leftover hleft => ?_⟩
  · have := congrArg Voice.spoken ((hvoice []).trans (foldl_hearLine_announcements ts []))
    simpa [Bridge.voice] using this
  · rw [← Option.some.injEq, ← hdec t ht, ← hdec t' ht', heq]
  · have h := congrArg Voice.spoken (hvoice leftover)
    rw [show (readOutput L leftover (unlines lf ws)).st.spoken = _ from h]
    cases ts with
    | nil => rfl
    | cons t ts =>
      rw [List.flatMap_cons, List.foldl_append, foldl_hearLine_speakLines, foldl_hearLine_announcements,
        joinBlank_append hleft (timeWords_ne_nil t)]
      rfl

/-- Two announcements: a line of `key_task` is inside the first, and the second begins with a log line. -/
theorem speakTime_roundTrip_two :
    (readOutput .ascii [] (unlines lf ((speakLines ⟨14, 1, 0⟩).take 4 ++ cstr "Key: Time request received!\r" ::
      ((speakLines ⟨14, 1, 0⟩).drop 4 ++ cstr "Speech Task: Announcing 00:59:01\r" :: speakLines ⟨0, 59, 1⟩)))).st.spoken =
      ["the time is fourteen hours one minute and zero seconds".toList,
       "the time is zero hours fifty nine minutes and one second".toList] := by
  have weave {l : Bytes} (hl : Foreign l) (ls : List Bytes) {ms ws : List Bytes} (hms : Woven Foreign ms ws) :
      Woven Foreign (ls ++ ms) (ls ++ l :: ws) := by
    induction ls with
    | nil => exact .other hl hms
    | cons m ls ih => exact .own m ih
  have self (ms : List Bytes) : Woven Foreign ms ms := by
    induction ms with
    | nil => exact .nil
    | cons m ms ih => exact .own m ih
  have hkey : Foreign (cstr "Key: Time request received!\r") := Headed.foreign (by decide) (by decide)
  have hspeech : Foreign (cstr "Speech Task: Announcing 00:59:01\r") := Headed.foreign (by decide) (by decide)
  have hwoven := weave hkey ((speakLines ⟨14, 1, 0⟩).take 4)
    (weave hspeech ((speakLines ⟨14, 1, 0⟩).drop 4) (self (speakLines ⟨0, 59, 1⟩)))
  rw [← List.append_assoc, List.take_append_drop] at hwoven
  have h := (speakTime_roundTrip .ascii [⟨14, 1, 0⟩, ⟨0, 59, 1⟩] (by decide) _
    (by rw [split_speakTimes]; simpa using hwoven)).2.1
  rw [h]
  decide

end

end SpeakingClock
