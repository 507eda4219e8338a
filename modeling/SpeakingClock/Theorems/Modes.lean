import SpeakingClock.Bridge

/-! The two modes of the bridge.

    `pipe_mode` decodes all of its input and then looks for lines; `interactive_mode` looks for lines
    among the bytes and decodes each. No byte of a longer character is a line feed or a carriage return,
    so both see the same lines (`feeds_encode`), up to the carriage returns that one drops and the
    other has turned into newlines (`feeds_newlines`). -/

namespace SpeakingClock
open PyText LineReader

theorem encodeChar_lf : String.utf8EncodeChar '\n' = [lf] := by decide

theorem encodeChar_cr : String.utf8EncodeChar '\r' = [cr] := by decide

theorem lf_not_mem_encodeChar {c : Char} (h : c ≠ '\n') : lf ∉ String.utf8EncodeChar c :=
  fun hmem => h (eq_ofByte_of_mem_encodeChar (by decide) hmem)

theorem encode_snoc_lf (t : Text) : encode (t ++ ['\n']) = encode t ++ [lf] := by
  rw [encode_append, encode_cons, encodeChar_lf, encode_nil, List.append_nil]

/-! ### Lines of bytes and of characters -/

theorem feeds_encode {σ : Type} {f : σ → Bytes → σ} (r : Reader Char σ) (t : Text) :
    (Reader.mk (encode r.buf) r.st).feeds lf f (encode t) =
      ⟨encode (r.feeds '\n' (fun s l => f s (encode l)) t).buf, (r.feeds '\n' (fun s l => f s (encode l)) t).st⟩ := by
  induction t using List.reverseRecOn with
  | nil => rfl
  | append_singleton t c ih =>
    rw [encode_append, feeds_append, ih, feeds_snoc]
    by_cases hc : c = '\n'
    · subst hc
      rw [encode_cons, encodeChar_lf]
      simp [Reader.feeds, Reader.feed]
    · rw [encode_cons, encode_nil, List.append_nil, feeds_of_not_mem (lf_not_mem_encodeChar hc)]
      simp [Reader.feed, hc, encode_cons]

/-- The bytes of a text are followed as its characters are. -/
theorem followedBy_of_encode {t : Text} (h : FollowedBy cr lf (encode t)) : FollowedBy '\r' '\n' t := by
  induction t with
  | nil => trivial
  | cons c t ih =>
    refine ⟨fun hc => ?_, ih h.of_append⟩
    subst hc
    rw [encode_cons, encodeChar_cr] at h
    have hhead : (encode t).head? = some lf := h.1 rfl
    cases t with
    | nil => simp at hhead
    | cons d t =>
      have hmem : lf ∈ String.utf8EncodeChar d := by
        rw [encode_cons, List.head?_append_of_ne_nil _ String.utf8EncodeChar_ne_nil] at hhead
        exact List.mem_of_head? hhead
      rw [List.head?_cons, eq_ofByte_of_mem_encodeChar (by decide) hmem]
      rfl

/-! ### Carriage returns -/

/-- A text without its carriage returns. -/
def dropCr (t : Text) : Text := t.filter (· ≠ '\r')

/-- Where each carriage return has its newline, dropping it inside lines is what the newline translation does. -/
theorem feeds_newlines {σ : Type} {f : σ → Text → σ} {t : Text} (h : FollowedBy '\r' '\n' t) (r : Reader Char σ) :
    (Reader.mk (dropCr r.buf) r.st).feeds '\n' f (universalNewlines t) =
      ⟨dropCr (r.feeds '\n' (fun s l => f s (dropCr l)) t).buf, (r.feeds '\n' (fun s l => f s (dropCr l)) t).st⟩ := by
  fun_induction universalNewlines t generalizing r with
  | case1 => rfl
  | case2 t ih =>
    have hstep : r.feeds '\n' (fun s l => f s (dropCr l)) ('\r' :: '\n' :: t) =
        (Reader.mk [] (f r.st (dropCr r.buf))).feeds '\n' (fun s l => f s (dropCr l)) t := by
      simp [Reader.feeds, Reader.feed, dropCr]
    rw [hstep]
    exact ih h.2.2 ⟨[], f r.st (dropCr r.buf)⟩
  | case3 c t hlone ih =>
    -- The translation of a lone carriage return is never used.
    have hcr : c ≠ '\r' := by
      rintro rfl
      obtain ⟨rest, hrest⟩ := List.head?_eq_some_iff.mp (h.1 rfl)
      exact hlone rest rfl hrest
    by_cases hc : c = '\n'
    · subst hc
      exact ih h.2 ⟨[], f r.st (dropCr r.buf)⟩
    · have hkeep : dropCr (r.buf ++ [c]) = dropCr r.buf ++ [c] := by simp [dropCr, hcr]
      have hstep : ∀ q : Reader Char σ, ∀ g : σ → Text → σ, q.feed '\n' g c = ⟨q.buf ++ [c], q.st⟩ := by
        intro q g
        simp [Reader.feed, hc]
      have hnext := ih h.2 ⟨r.buf ++ [c], r.st⟩
      rw [hkeep] at hnext
      rw [if_neg hcr]
      simp only [Reader.feeds, List.foldl_cons, hstep] at hnext ⊢
      exact hnext

/-! ### The end of the input -/

section
variable (L : Lowering) (b : Bridge)

theorem readLine_encode (l : Text) : readLine L b (encode l) = b.line L (dropCr l) := by
  simp only [readLine, lineText, decode_encode, Bridge.line, dropCr]

theorem Bridge.line_newline (l : Text) : b.line L (l ++ ['\n']) = b.line L l := by
  simp only [Bridge.line, processLine, strip_append_space (show isSpace '\n' = true by decide)]

/-- An empty line does nothing. -/
theorem Bridge.line_nil : b.line L [] = b := by
  simp [Bridge.line, processLine, show strip [] = [] from rfl]

end

/-- What either mode has done to the bridge before its flush, in terms of the lines of the text. -/
def heardText (L : Lowering) (t : Text) : Reader Char Bridge :=
  (Reader.mk [] ⟨[], []⟩).feeds '\n' (fun b l => b.line L (dropCr l)) t

theorem readOutput_encode (L : Lowering) (t : Text) :
    readOutput L [] (encode t) = ⟨encode (heardText L t).buf, (heardText L t).st⟩ := by
  have h := feeds_encode (f := readLine L) ⟨[], ⟨[], []⟩⟩ t
  simp only [readLine_encode] at h
  exact h

theorem stdinLines_eq {L : Lowering} {t : Text} (h : FollowedBy '\r' '\n' t) :
    stdinLines L (universalNewlines t) = (heardText L t).st.line L (dropCr (heardText L t).buf) := by
  have hfeeds := feeds_newlines (f := fun b l => Bridge.line L b l) h ⟨[], ⟨[], []⟩⟩
  unfold stdinLines
  simp only [Bridge.line_newline]
  rw [show (Reader.mk [] (Bridge.mk [] [])) = ⟨dropCr [], ⟨[], []⟩⟩ from rfl, hfeeds]
  split
  · rename_i hbuf
    rw [show dropCr (heardText L t).buf = [] from hbuf, Bridge.line_nil]
    rfl
  · rfl

/-- The bytes of a text as QEMU's output has them, its last line complete. -/
theorem readOutput_terminated (L : Lowering) (t : Text) :
    (readOutput L [] (if encode t ≠ [] ∧ (encode t).getLast? ≠ some lf then encode t ++ [lf] else encode t)).st =
      (heardText L t).st.line L (dropCr (heardText L t).buf) := by
  split
  · rw [← encode_snoc_lf, readOutput_encode, heardText, feeds_snoc]
    simp [Reader.feed, heardText]
  · rename_i hclosed
    have hmid : midLine lf (encode t) = false := by
      rcases List.eq_nil_or_concat (encode t) with hnil | ⟨ys, y, hsnoc⟩
      · rw [hnil, midLine_nil]
      · rw [List.concat_eq_append] at hsnoc
        simpa [hsnoc] using hclosed
    have hbuf : (heardText L t).buf = [] := by
      have hread : encode (heardText L t).buf = (readOutput L [] (encode t)).buf := by rw [readOutput_encode]
      have hempty : encode (heardText L t).buf = [] := by
        rw [hread, readOutput, feeds_buf_eq_split, split_buf_of_not_midLine hmid]
      rw [← decode_encode (heardText L t).buf, hempty, decode_nil]
    rw [readOutput_encode, hbuf]
    exact (Bridge.line_nil L _).symm

/-- **The two modes agree.** On valid UTF-8 with a line feed after every carriage return, `pipe_mode` speaks
    what `interactive_mode` speaks of the same bytes with the last line completed. -/
theorem modes_agree (L : Lowering) (w : Bytes) (valid : IsUtf8 w) (crlf : FollowedBy cr lf w) :
    (pipeMode L w).map Bridge.spoken =
      some (interactiveMode L (if w ≠ [] ∧ w.getLast? ≠ some lf then w ++ [lf] else w)).spoken := by
  obtain ⟨t, rfl⟩ := valid
  rw [pipeMode, decode?_encode, Option.map_some, Option.map_some, interactiveMode, readOutput_terminated,
    stdinLines_eq (followedBy_of_encode crlf)]

/-- A line of the log with a longer character, a token with CR LF, and a token on an unfinished line. -/
theorem modes_agree_unfinished :
    (pipeMode .ascii (encode "é\nTOKEN IT_IS\r\nTOKEN SIX".toList)).map Bridge.spoken = some ["it is six".toList] ∧
      (interactiveMode .ascii (encode "é\nTOKEN IT_IS\r\nTOKEN SIX".toList ++ [lf])).spoken = ["it is six".toList] := by
  have h := modes_agree .ascii (encode "é\nTOKEN IT_IS\r\nTOKEN SIX".toList) ⟨_, rfl⟩ (by decide)
  have hend : (interactiveMode .ascii (encode "é\nTOKEN IT_IS\r\nTOKEN SIX".toList ++ [lf])).spoken =
      ["it is six".toList] := by decide +kernel
  rw [if_pos (by decide), hend] at h
  exact ⟨h, hend⟩

end SpeakingClock
