import SpeakingClock.Speech
import SpeakingClock.Bridge

/-! One announcement through the bridge: the lines of `speak_time`, what each of them does to the
    token list, and the one sentence that a whole announcement is spoken as. -/

namespace SpeakingClock
open PyText LineReader

/-! ### Tokens -/

/-- A token that survives `strip` and the line framing: printable ASCII without blanks. -/
def PlainToken (token : String) : Prop :=
  token.toList ≠ [] ∧ ∀ c ∈ token.toList, 33 ≤ c.toNat ∧ c.toNat < 127

instance (token : String) : Decidable (PlainToken token) :=
  @instDecidableAnd _ _ inferInstance (List.decidableBAll _ _)

/-- The word that the bridge keeps for a token. -/
def word (token : String) : Text := token.toList.map fun c => if c.toLower = '_' then ' ' else c.toLower

theorem numberWords_plain : ∀ w ∈ numberWords, PlainToken w := by decide

theorem numberWord_plain {n : UInt8} (h : n < 60) : PlainToken (numberWord n) := by
  have hlen : n.toNat < numberWords.length := UInt8.lt_iff_toNat_lt.mp h
  have hget : numberWord n = numberWords.get ⟨n.toNat, hlen⟩ := by
    simp [numberWord, List.getD_eq_getElem?_getD, List.getElem?_eq_getElem hlen]
  rw [hget]
  exact numberWords_plain _ (List.get_mem _ _)

theorem fieldTokens_plain {n : UInt8} {one many : String} (h1 : PlainToken one) (h2 : PlainToken many) :
    ∀ t ∈ fieldTokens n one many, PlainToken t := by
  intro t ht
  rcases List.mem_append.mp ht with ht | ht
  · split at ht
    · rename_i hn
      rw [List.mem_singleton.mp ht]
      exact numberWord_plain hn
    · cases ht
  · rw [List.mem_singleton.mp ht]
    split <;> assumption

/-- Every token of `speak_time` is plain, in range or not. -/
theorem timeTokens_plain (m : TimeMsg) : ∀ t ∈ timeTokens m, PlainToken t := by
  intro t ht
  simp only [timeTokens, List.mem_append, List.mem_cons, List.not_mem_nil, or_false] at ht
  rcases ht with (((((rfl | rfl | rfl) | ht) | ht) | rfl) | ht)
  · decide
  · decide
  · decide
  · exact fieldTokens_plain (by decide) (by decide) t ht
  · exact fieldTokens_plain (by decide) (by decide) t ht
  · decide
  · exact fieldTokens_plain (by decide) (by decide) t ht

/-! ### Token lines -/

def tokenLine (token : String) : Bytes := cstr "TOKEN " ++ cstr token ++ [cr]

section
variable {token : String}

theorem toNat_ofNat_of_lt {c : Char} (h : c.toNat < 0x80) : (UInt8.ofNat c.toNat).toNat = c.toNat :=
  UInt8.toNat_ofNat_of_lt (Nat.lt_of_lt_of_le h (by decide))

theorem cstr_plain (h : PlainToken token) : ∀ b ∈ cstr token, b.toNat < 0x80 ∧ b ≠ cr ∧ b ≠ lf := by
  intro b hb
  obtain ⟨c, hc, rfl⟩ := List.mem_map.mp hb
  obtain ⟨hlo, hhi⟩ := h.2 c hc
  have hn := toNat_ofNat_of_lt (c := c) (by omega)
  refine ⟨by omega, fun he => ?_, fun he => ?_⟩
  · rw [he] at hn
    exact absurd (hn ▸ hlo) (by decide)
  · rw [he] at hn
    exact absurd (hn ▸ hlo) (by decide)

theorem map_ofByte_cstr (h : ∀ c ∈ token.toList, c.toNat < 0x80) : (cstr token).map ofByte = token.toList := by
  rw [cstr, List.map_map]
  refine (List.map_congr_left fun c hc => ?_).trans (List.map_id _)
  have hn := toNat_ofNat_of_lt (h c hc)
  rw [Function.comp_apply, ofByte, hn, Char.ofNat_toNat, id]

theorem lf_not_mem_tokenLine (h : PlainToken token) : lf ∉ tokenLine token := by
  simp only [tokenLine, List.mem_append, not_or]
  refine ⟨⟨by decide, fun hb => (cstr_plain h lf hb).2.2 rfl⟩, by decide⟩

theorem lineText_tokenLine (h : PlainToken token) : lineText (tokenLine token) = "TOKEN ".toList ++ token.toList := by
  have hlabel : ∀ b ∈ cstr "TOKEN ", b.toNat < 0x80 ∧ b ≠ cr := List.forall_iff_forall_mem.mp (by decide)
  have hascii : ∀ b ∈ cstr "TOKEN " ++ cstr token, b.toNat < 0x80 ∧ b ≠ cr := by
    intro b hb
    rcases List.mem_append.mp hb with hb | hb
    · exact hlabel b hb
    · exact ⟨(cstr_plain h b hb).1, (cstr_plain h b hb).2.1⟩
  have hcr : lineText [cr] = [] := by decide
  rw [tokenLine, lineText_ascii_append _ hascii, hcr, List.append_nil, List.map_append,
    @map_ofByte_cstr token fun c hc => Nat.lt_trans (h.2 c hc).2 (by decide)]
  rfl

theorem not_isSpace_of_plain {c : Char} (h : 33 ≤ c.toNat ∧ c.toNat < 127) : isSpace c = false := by
  simp only [isSpace]
  grind

theorem strip_token (h : PlainToken token) : strip token.toList = token.toList :=
  strip_of_ends (fun c hc => not_isSpace_of_plain (h.2 c (List.mem_of_head? hc)))
    (fun c hc => not_isSpace_of_plain (h.2 c (List.mem_of_getLast? hc)))

theorem strip_tokenLine (h : PlainToken token) :
    strip ("TOKEN ".toList ++ token.toList) = "TOKEN ".toList ++ token.toList := by
  refine strip_of_ends (fun c hc => ?_) (fun c hc => ?_)
  · rw [show c = 'T' from (Option.some.inj hc).symm]
    decide
  · rw [List.getLast?_append_of_ne_nil _ h.1] at hc
    exact not_isSpace_of_plain (h.2 c (List.mem_of_getLast? hc))

theorem tokenToWord_plain (L : Lowering) (h : PlainToken token) : tokenToWord L token.toList = word token := by
  rw [tokenToWord, L.lower_ascii _ fun c hc => Nat.lt_trans (h.2 c hc).2 (by decide), List.map_map]
  rfl

theorem hearLine_tokenLine {L : Lowering} {v : Voice} (h : PlainToken token) :
    hearLine L v (tokenLine token) = ⟨v.tokens ++ [word token], v.spoken⟩ := by
  have hprefix : "TOKEN ".toList.isPrefixOf ("TOKEN ".toList ++ token.toList) = true :=
    List.isPrefixOf_iff_prefix.mpr (List.prefix_append _ _)
  have hdrop : ("TOKEN ".toList ++ token.toList).drop 6 = token.toList := rfl
  rw [hearLine_eq, lineText_tokenLine h, strip_tokenLine h, if_pos hprefix, hdrop, strip_token h]
  simp [h.1, tokenToWord_plain L h]

end

/-! ### Whole announcements -/

/-- The lines of `speak_time`, as they stand in the reader's buffer. -/
def speakLines (m : TimeMsg) : List Bytes :=
  [[cr], cstr "--- Speech Output ---\r"] ++ (timeTokens m).map tokenLine ++
    [cstr "END\r", cstr "--- End Speech ---\r", [cr]]

def timeWords (m : TimeMsg) : List Text := (timeTokens m).map word

def sentence (m : TimeMsg) : Text := joinBlank (timeWords m)

theorem flatMap_uartSendToken (tokens : List String) :
    tokens.flatMap uartSendToken = unlines lf (tokens.map tokenLine) := by
  have hend : cstr "\r\n" = [cr] ++ [lf] := by decide
  induction tokens with
  | nil => rfl
  | cons t ts ih =>
    rw [List.flatMap_cons, ih, List.map_cons, unlines_cons, uartSendToken, tokenLine, hend]
    simp

theorem speakTokens_eq_unlines (m : TimeMsg) :
    speakTokens m =
      unlines lf ([[cr], cstr "--- Speech Output ---\r"] ++ (timeTokens m).map tokenLine ++ [cstr "END\r"]) := by
  have hhead : cstr "\r\n--- Speech Output ---\r\n" = unlines lf [[cr], cstr "--- Speech Output ---\r"] := by decide
  have hend : cstr "END\r\n" = unlines lf [cstr "END\r"] := by decide
  rw [speakTokens, flatMap_uartSendToken, hhead, hend, unlines_append, unlines_append]

theorem speakTime_eq_unlines (m : TimeMsg) : speakTime m = unlines lf (speakLines m) := by
  have htrailer : speakTrailer = unlines lf [cstr "--- End Speech ---\r", [cr]] := by decide
  have hsplit : speakLines m = ([[cr], cstr "--- Speech Output ---\r"] ++ (timeTokens m).map tokenLine ++
      [cstr "END\r"]) ++ [cstr "--- End Speech ---\r", [cr]] := by simp [speakLines]
  rw [speakTime, speakTokens_eq_unlines, htrailer, hsplit, ← unlines_append]

theorem speakLines_no_lf (m : TimeMsg) : ∀ l ∈ speakLines m, lf ∉ l := by
  have hhead : ∀ l ∈ [[cr], cstr "--- Speech Output ---\r"], lf ∉ l := by decide
  have htail : ∀ l ∈ [cstr "END\r", cstr "--- End Speech ---\r", [cr]], lf ∉ l := by decide
  intro l hl
  rcases List.mem_append.mp hl with hl | hl
  · rcases List.mem_append.mp hl with hl | hl
    · exact hhead l hl
    · obtain ⟨t, ht, rfl⟩ := List.mem_map.mp hl
      exact lf_not_mem_tokenLine (timeTokens_plain m t ht)
  · exact htail l hl

section
variable {L : Lowering}

theorem foldl_hearLine_tokens {tokens : List String} (h : ∀ t ∈ tokens, PlainToken t) (v : Voice) :
    (tokens.map tokenLine).foldl (hearLine L) v = ⟨v.tokens ++ tokens.map word, v.spoken⟩ := by
  induction tokens generalizing v with
  | nil => simp
  | cons t ts ih =>
    rw [List.map_cons, List.foldl_cons, hearLine_tokenLine (h t List.mem_cons_self),
      ih fun t' ht' => h t' (List.mem_cons_of_mem _ ht')]
    simp

theorem foreign_speechOutput : Foreign (cstr "--- Speech Output ---\r") :=
  Headed.foreign (by decide) (by decide)

theorem foreign_endSpeech : Foreign (cstr "--- End Speech ---\r") :=
  Headed.foreign (by decide) (by decide)

theorem hearLine_end {v : Voice} (h : v.tokens ≠ []) :
    hearLine L v (cstr "END\r") = ⟨[], v.spoken ++ [joinBlank v.tokens]⟩ := by
  have hend : strip (lineText (cstr "END\r")) = "END".toList := by decide
  have hnot : ¬"TOKEN ".toList.isPrefixOf "END".toList = true := by decide
  rw [hearLine_eq, hend, if_neg hnot, if_pos rfl, if_neg h]

theorem timeWords_ne_nil (m : TimeMsg) : timeWords m ≠ [] := by simp [timeWords, timeTokens]

/-- An announcement speaks one sentence: what stood in the token list, and then its own words. -/
theorem foldl_hearLine_speakLines (m : TimeMsg) (v : Voice) :
    (speakLines m).foldl (hearLine L) v = ⟨[], v.spoken ++ [joinBlank (v.tokens ++ timeWords m)]⟩ := by
  have hne : v.tokens ++ timeWords m ≠ [] := fun h => timeWords_ne_nil m (List.append_eq_nil_iff.mp h).2
  rw [speakLines, List.foldl_append, List.foldl_append]
  simp only [List.foldl_cons, List.foldl_nil, hearLine_foreign Foreign.blank, hearLine_foreign foreign_speechOutput,
    hearLine_foreign foreign_endSpeech]
  rw [foldl_hearLine_tokens (timeTokens_plain m), hearLine_end hne]
  rfl

/-- `speak_time` alone, read from an empty token list, is spoken as its sentence. -/
theorem spoken_speakTime (m : TimeMsg) : (readOutput L [] (speakTime m)).st.spoken = [sentence m] := by
  have h := readOutput_voice (L := L) [] (speakTime m)
  rw [hear, speakTime_eq_unlines, feeds_unlines (speakLines_no_lf m), foldl_hearLine_speakLines] at h
  rw [speakTime_eq_unlines]
  exact congrArg Voice.spoken h

end

end SpeakingClock
