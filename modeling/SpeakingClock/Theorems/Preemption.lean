import SpeakingClock.Theorems.Conservation

/-! The token stream under preemption. Each task's own bytes are what they should be in every run; the
    UART merges them without a lock. While no byte is put inside a line of another task (`Exclusive`), the
    bridge speaks every announcement as `speak_time` alone would make it do. The scheduler does not
    keep to that: `preemption_corrupts` is a run it allows. -/

namespace SpeakingClock
open Run LineReader PyText

/-! ### Each task's own stream -/

/-- What `speech_task` prints from where it stands to its next action. -/
def SpeechPc.Prints (pc : SpeechPc) (text : Bytes) : Prop :=
  match pc with
  | .receive => LogText text
  | .announce m => text = announceLine m ++ speakTokens m
  | .close _ => text = speakTrailer

/-- The announcements whose end marker `speech_task` had put when it came to where it stands. -/
def State.closed (s : State) : List TimeMsg :=
  completed s.history ++ match s.speech.pc with | .close m => [m] | _ => []

/-- The announcement whose end marker is out, though `speak_time` has not returned. -/
def State.ended (s : State) : List TimeMsg :=
  match s.speech.pc with
  | .receive => []
  | .announce m => if s.speech.out = [] then [m] else []
  | .close m => [m]

/-- What the bytes of each task are, put and still to be put. -/
structure Streams (L : Lowering) (s : State) : Prop where
  main : own .main s.uart = mainText
  key : LogText (own .key s.uart ++ s.key.out)
  ntp : LogText (own .ntp s.uart ++ s.ntp.app.uart)
  /-- What was spoken before the present text, and the part of that text that is out. -/
  speech : ∃ before out, own .speech s.uart = before ++ out ∧ s.speech.pc.Prints (out ++ s.speech.out) ∧
    hear L ⟨[], []⟩ before = ⟨[], ⟨[], s.closed.map sentence⟩⟩

section
variable {L : Lowering} {s t : State}

theorem hear_append (v : Voice) (xs ys : Bytes) : hear L v (xs ++ ys) = (hear L v xs).feeds lf (hearLine L) ys :=
  feeds_append xs ys

theorem hear_logText {v v' : Voice} {xs ys : Bytes} (hx : hear L v xs = ⟨[], v'⟩) (hy : LogText ys) :
    hear L v (xs ++ ys) = ⟨[], v'⟩ := by
  obtain ⟨ls, rfl, hls⟩ := hy
  rw [hear_append, hx, feeds_unlines fun l hl => (hls l hl).no_lf]
  congr 1
  induction ls with
  | nil => rfl
  | cons l ls ih =>
    rw [List.foldl_cons, hearLine_foreign (hls l List.mem_cons_self),
      ih fun l' hl' => hls l' (List.mem_cons_of_mem _ hl')]

theorem heard_between {xs ys zs : Bytes} {spoken : List Text} (hlo : (hear L ⟨[], []⟩ xs).st.spoken = spoken)
    (hhi : (hear L ⟨[], []⟩ (xs ++ (ys ++ zs))).st.spoken = spoken) :
    (hear L ⟨[], []⟩ (xs ++ ys)).st.spoken = spoken := by
  have h1 := hear_spoken_grows (L := L) (hear L ⟨[], []⟩ xs) ys
  have h2 := hear_spoken_grows (L := L) (hear L ⟨[], []⟩ (xs ++ ys)) zs
  rw [← hear_append, hlo] at h1
  rw [← hear_append, List.append_assoc, hhi] at h2
  exact (h1.eq_of_length_le h2.length_le).symm

/-- An announcement up to its last line, which is the end marker. -/
theorem speakTokens_eq_snoc (m : TimeMsg) : ∃ xs, speakTokens m = xs ++ cstr "END\r" ++ [lf] ∧
    ∀ spoken, hear L ⟨[], spoken⟩ xs = ⟨[], ⟨timeWords m, spoken⟩⟩ := by
  refine ⟨unlines lf ([[cr], cstr "--- Speech Output ---\r"] ++ (timeTokens m).map tokenLine), ?_, fun spoken => ?_⟩
  · rw [speakTokens_eq_unlines, unlines_append lf (_ ++ _), unlines_cons]
    simp [unlines]
  · have hlines : ∀ l ∈ [[cr], cstr "--- Speech Output ---\r"] ++ (timeTokens m).map tokenLine, lf ∉ l := fun l hl =>
      speakLines_no_lf m l (by simp only [speakLines]; exact List.mem_append_left _ hl)
    rw [hear, feeds_unlines hlines, List.foldl_append]
    simp only [List.foldl_cons, List.foldl_nil, hearLine_foreign Foreign.blank, hearLine_foreign foreign_speechOutput]
    rw [foldl_hearLine_tokens (timeTokens_plain m)]
    rfl

theorem hear_announcement {xs : Bytes} {spoken : List Text} (hx : hear L ⟨[], []⟩ xs = ⟨[], ⟨[], spoken⟩⟩) (m : TimeMsg) :
    hear L ⟨[], []⟩ (xs ++ (announceLine m ++ speakTokens m)) = ⟨[], ⟨[], spoken ++ [sentence m]⟩⟩ := by
  obtain ⟨ys, hys, hspeak⟩ := speakTokens_eq_snoc (L := L) m
  have hlog := hear_logText hx (logText_announceLine m)
  have hend : lf ∉ cstr "END\r" := by decide
  rw [← List.append_assoc, hys, hear_append, hlog, List.append_assoc, feeds_append]
  have hbefore : (Reader.mk [] (⟨[], spoken⟩ : Voice)).feeds lf (hearLine L) ys = ⟨[], ⟨timeWords m, spoken⟩⟩ :=
    hspeak spoken
  rw [hbefore, feeds_line hend, List.nil_append, hearLine_end (timeWords_ne_nil m)]
  rfl

theorem hear_unfinished {xs ys zs : Bytes} {spoken : List Text} {m : TimeMsg}
    (hx : hear L ⟨[], []⟩ xs = ⟨[], ⟨[], spoken⟩⟩) (hsplit : announceLine m ++ speakTokens m = ys ++ zs)
    (hzs : zs ≠ []) : (hear L ⟨[], []⟩ (xs ++ ys)).st.spoken = spoken := by
  obtain ⟨us, hus, hspeak⟩ := speakTokens_eq_snoc (L := L) m
  obtain ⟨zs, z, rfl⟩ : ∃ zs' z, zs = zs' ++ [z] := ⟨_, _, (List.dropLast_append_getLast hzs).symm⟩
  -- All but the last byte: the token list is full, and nothing is spoken yet.
  have hall : announceLine m ++ (us ++ cstr "END\r") = ys ++ zs := by
    have hlast : announceLine m ++ (us ++ cstr "END\r") ++ [lf] = ys ++ zs ++ [z] := by
      rw [hus] at hsplit
      simpa only [List.append_assoc] using hsplit
    exact (List.append_inj' hlast rfl).1
  refine heard_between (congrArg (·.st.spoken) hx)
    (?_ : (hear L ⟨[], []⟩ (xs ++ (ys ++ zs))).st.spoken = spoken)
  have hend : lf ∉ cstr "END\r" := by decide
  have hbefore : (Reader.mk [] (⟨[], spoken⟩ : Voice)).feeds lf (hearLine L) us = ⟨[], ⟨timeWords m, spoken⟩⟩ :=
    hspeak spoken
  rw [← hall, ← List.append_assoc, hear_append, hear_logText hx (logText_announceLine m), feeds_append, hbefore,
    feeds_of_not_mem hend]

/-- What is heard of `speech_task` alone. -/
theorem Streams.heard (h : Streams L s) :
    (hear L ⟨[], []⟩ (own .speech s.uart)).st.spoken = (completed s.history ++ s.ended).map sentence := by
  obtain ⟨before, out, hown, hprints, hbefore⟩ := h.speech
  have hlog : LogText (out ++ s.speech.out) →
      (hear L ⟨[], []⟩ (before ++ out)).st.spoken = s.closed.map sentence := fun hlog =>
    heard_between (congrArg (·.st.spoken) hbefore) (congrArg (·.st.spoken) (hear_logText hbefore hlog))
  rw [hown]
  cases hpc : s.speech.pc with
  | receive =>
    rw [hpc] at hprints
    rw [hlog hprints]
    simp [State.closed, State.ended, hpc]
  | close m =>
    rw [hpc] at hprints
    rw [hlog ((show out ++ s.speech.out = speakTrailer from hprints) ▸ logText_speakTrailer)]
    simp [State.closed, State.ended, hpc]
  | announce m =>
    rw [hpc] at hprints
    have hprints : out ++ s.speech.out = announceLine m ++ speakTokens m := hprints
    have hclosed : s.closed = completed s.history := by simp [State.closed, hpc]
    rw [hclosed] at hbefore
    by_cases hout : s.speech.out = []
    · rw [hout, List.append_nil] at hprints
      rw [hprints, hear_announcement hbefore m]
      simp [State.ended, hpc, hout]
    · rw [hear_unfinished hbefore hprints.symm hout]
      simp [State.ended, hpc, hout]

theorem streams_init (hw : HwInit) (msg : TimeMsg) : Streams L (State.init hw msg) where
  main := own_map_self _ _
  key := by
    simp only [State.init]
    rw [own_map_ne (by decide), List.nil_append]
    exact logText_keyBanner
  ntp := by
    simp only [State.init]
    rw [own_map_ne (by decide), List.nil_append]
    exact logText_ntpBanner hw
  speech := ⟨[], [], own_map_ne (by decide) _, logText_speechBanner, rfl⟩

theorem Streams.quiet (h : Streams L s) (huart : t.uart = s.uart) (hkey : LogText (own .key s.uart ++ t.key.out))
    (hntp : LogText (own .ntp s.uart ++ t.ntp.app.uart)) (hspeech : t.speech = s.speech)
    (hcompl : completed t.history = completed s.history) : Streams L t where
  main := huart ▸ h.main
  key := huart ▸ hkey
  ntp := huart ▸ hntp
  speech := by
    have hclosed : t.closed = s.closed := by simp only [State.closed, hspeech, hcompl]
    rw [huart, hspeech, hclosed]
    exact h.speech

theorem Streams.logs (h : Streams L s) {app' : App} (out : s.ntp.app.uart = []) (hlogs : s.ntp.app.Logs app')
    (huart : t.uart = s.uart) (hkey : t.key = s.key) (hntp : t.ntp.app = app') (hspeech : t.speech = s.speech)
    (hcompl : completed t.history = completed s.history) : Streams L t := by
  refine h.quiet huart (hkey ▸ h.key) ?_ hspeech hcompl
  have hbefore := h.ntp
  rw [out, List.append_nil] at hbefore
  rw [hntp]
  exact hbefore.append (hlogs.logText out)

theorem Streams.next (h : Streams L s) {before out : Bytes} {pc : SpeechPc} {text : Bytes}
    (hown : own .speech s.uart = before ++ out) (hbefore : hear L ⟨[], []⟩ (before ++ out) = ⟨[], ⟨[], t.closed.map sentence⟩⟩)
    (huart : t.uart = s.uart) (hkey : t.key = s.key) (hntp : t.ntp = s.ntp) (hspeech : t.speech = ⟨pc, text⟩)
    (hprints : pc.Prints text) : Streams L t where
  main := huart ▸ h.main
  key := by
    rw [huart, hkey]
    exact h.key
  ntp := by
    rw [huart, hntp]
    exact h.ntp
  speech := ⟨before ++ out, [], by rw [huart, hown, List.append_nil], by rw [hspeech]; exact hprints, hbefore⟩

theorem Streams.step {a : Action} (h : Streams L s) (hstep : Step s a t) : Streams L t := by
  obtain ⟨hmain, hkey, hntp, before, text, hown, hprints, hbefore⟩ := id h
  cases hstep with
  | @keyPutc b bs out =>
    rw [out] at hkey
    exact {
      main := by simpa [own_singleton_ne] using hmain
      key := by simpa using hkey
      ntp := by simpa [own_singleton_ne] using hntp
      speech := ⟨before, text, by simpa [own_singleton_ne] using hown, hprints, hbefore⟩ }
  | @ntpPutc b bs out =>
    rw [out] at hntp
    exact {
      main := by simpa [own_singleton_ne] using hmain
      key := by simpa [own_singleton_ne] using hkey
      ntp := by simpa using hntp
      speech := ⟨before, text, by simpa [own_singleton_ne] using hown, hprints, hbefore⟩ }
  | @speechPutc b bs out =>
    rw [out] at hprints
    exact {
      main := by simpa [own_singleton_ne] using hmain
      key := by simpa [own_singleton_ne] using hkey
      ntp := by simpa [own_singleton_ne] using hntp
      speech := ⟨before, text ++ [b], by simp [hown], by simpa using hprints, hbefore⟩ }
  | keyAccept c pc out =>
    rw [out, List.append_nil] at hkey
    exact h.quiet rfl (hkey.append logText_keyRequest) hntp rfl (by simp [Event.spoken?])
  | keyIgnore rx pc out | keyWake pc out =>
    rw [out] at hkey
    exact h.quiet rfl hkey hntp rfl rfl
  | keyGive pc out =>
    rw [out] at hkey
    exact h.quiet rfl hkey hntp rfl (by simp [Event.spoken?])
  | ntpMove move out logs => exact h.logs out logs rfl rfl rfl rfl rfl
  | ntpTake pc out sem logs => exact h.logs out logs rfl rfl rfl rfl (by simp [Event.spoken?])
  | answered pc out answer logs | retry pc out answer logs =>
    exact h.logs out logs rfl rfl rfl rfl (by simp [Event.spoken?])
  | giveUp pc last out answer logs =>
    refine h.logs out logs rfl rfl rfl rfl ?_
    rw [List.append_cons, completed_append_quiet (quiet_loopEnd 0)]
    simp [Event.spoken?]
  | ntpSend pc out free logs | ntpSendTimeout pc out logs =>
    refine h.logs out logs rfl rfl rfl rfl ?_
    rw [List.append_cons, completed_append_quiet (quiet_loopEnd _)]
    simp [Event.spoken?]
  | @receive m queue pc out head =>
    rw [pc, out, List.append_nil] at hprints
    refine h.next hown ?_ rfl rfl rfl rfl rfl
    rw [hear_logText hbefore hprints]
    simp [State.closed, pc, Event.spoken?]
  | @close m pc out =>
    rw [pc, out, List.append_nil] at hprints
    have hprints : text = announceLine m ++ speakTokens m := hprints
    refine h.next hown ?_ rfl rfl rfl rfl rfl
    rw [hprints, hear_announcement hbefore m]
    simp [State.closed, pc]
  | @done m pc out =>
    rw [pc, out, List.append_nil] at hprints
    have hprints : text = speakTrailer := hprints
    refine h.next hown ?_ rfl rfl rfl rfl LogText.nil
    rw [hear_logText hbefore (hprints ▸ logText_speakTrailer)]
    simp [State.closed, pc, Event.spoken?]

end

/-! ### The merged stream -/

/-- A byte is put only while no other task is inside a line. -/
def Exclusive (s : State) (a : Action) : Prop :=
  ∀ w, w.putc? = some a → ∀ w', w' ≠ w → midLine lf (own w' s.uart) = false

instance (s : State) (a : Action) : Decidable (Exclusive s a) := inferInstanceAs (Decidable (∀ _, _ → ∀ _, _))

theorem steady_exclusive : Steady Exclusive := by
  intro s w a n ha h w₁ ha₁ w' hw'
  have hown : own w' (s.put w n).uart = own w' s.uart := by
    have hw : w ≠ w' := putc?_inj ha₁ ha ▸ Ne.symm hw'
    cases w with
    | main => rfl
    | key | ntp | speech =>
      simp only [State.put, own_append]
      rw [own_map_ne hw, List.append_nil]
  rw [hown]
  exact h w₁ ha₁ w' hw'

section
variable {L : Lowering} {hw : HwInit} {msg : TimeMsg} {s : State}

theorem lineAtomic_uart (h : Reaches step Exclusive (State.init hw msg) s) : LineAtomic lf s.uart := by
  have start : LineAtomic lf (State.init hw msg).uart := LineAtomic.single _ _
  refine h.invariant (P := fun s => LineAtomic lf s.uart) start fun s a t _ ih hok hstep => ?_
  have put : ∀ w b, w.putc? = some a → LineAtomic lf (s.uart ++ [(w, b)]) := fun w b hw => ih.snoc w b (hok w hw)
  cases step_inv hstep with
  | keyPutc => exact put .key _ rfl
  | ntpPutc => exact put .ntp _ rfl
  | speechPutc => exact put .speech _ rfl
  | _ => exact ih

/-- The complete lines of a task that prints log lines are foreign. -/
theorem foreign_of_logText {xs ys : Bytes} (h : LogText (xs ++ ys)) : ∀ l ∈ (split lf xs).st, Foreign l := by
  obtain ⟨ls, hls, hforeign⟩ := h
  intro l hl
  have hmem := (split_st_grows xs ys).subset hl
  rw [hls, split_unlines fun l hl => (hforeign l hl).no_lf] at hmem
  exact hforeign l hmem

/-- **Preemption.** In every run in which no byte is put inside a line of another task, the bridge makes
    one `speak` call per announcement whose end marker is out, in order, with the sentence that
    `speak_time` alone makes it speak. -/
theorem preemption_safe (L : Lowering) (h : Reaches step Exclusive (State.init hw msg) s) :
    (readOutput L [] (s.uart.map (·.2))).st.spoken =
      (completed s.history ++ s.ended).flatMap (fun m => (readOutput L [] (speakTime m)).st.spoken) ∧
    ∀ m, ∃ sentence, (readOutput L [] (speakTime m)).st.spoken = [sentence] := by
  have streams : Streams L s :=
    h.invariant (streams_init hw msg) fun _ _ _ _ hs _ hstep => hs.step (step_inv hstep)
  have hst := (lineAtomic_uart h).feeds_st (k := .speech) (f := hearLine L) ⟨[], []⟩ fun w hw l hl v => by
    refine hearLine_foreign ?_
    cases w with
    | main =>
      have hlog : LogText (own .main s.uart ++ []) := by
        rw [List.append_nil, streams.main]
        exact logText_mainText
      exact foreign_of_logText hlog l hl
    | key => exact foreign_of_logText streams.key l hl
    | ntp => exact foreign_of_logText streams.ntp l hl
    | speech => exact absurd rfl hw
  have hread := congrArg Voice.spoken (readOutput_voice (L := L) [] (s.uart.map (·.2)))
  refine ⟨?_, fun m => ⟨_, spoken_speakTime m⟩⟩
  calc (readOutput L [] (s.uart.map (·.2))).st.spoken
      = (hear L ⟨[], []⟩ (own .speech s.uart)).st.spoken := hread.trans (congrArg Voice.spoken hst)
    _ = (completed s.history ++ s.ended).map sentence := streams.heard
    _ = _ := by
      rw [List.map_eq_flatMap]
      exact List.flatMap_congr fun m _ => (spoken_speakTime m).symm

end

/-- In the run of three rounds every line is put whole. -/
theorem runSchedule_wholeLines :
    (runSchedule Exclusive (State.init qemuHw ⟨0, 0, 0⟩) threeRounds).map (fun s => (completed s.history, s.ended)) =
      some ([⟨21, 12, 56⟩, ⟨21, 17, 12⟩], []) := by decide +kernel

theorem preemption_safe_two :
    ∃ s, Reaches step Exclusive (State.init qemuHw ⟨0, 0, 0⟩) s ∧ completed s.history = [⟨21, 12, 56⟩, ⟨21, 17, 12⟩] ∧
      (readOutput .ascii [] (s.uart.map (·.2))).st.spoken =
        ["the time is twenty one hours twelve minutes and fifty six seconds".toList,
         "the time is twenty one hours seventeen minutes and twelve seconds".toList] := by
  obtain ⟨s, hrun, heq⟩ := Option.map_eq_some_iff.mp runSchedule_wholeLines
  obtain ⟨hcompl, hended⟩ := Prod.mk.inj heq
  have hreach := reaches_of_runSchedule steady_exclusive hrun
  refine ⟨s, hreach, hcompl, ?_⟩
  rw [(preemption_safe .ascii hreach).1, hcompl, hended]
  decide +kernel

/-- The first announcement, with a second press of 't' in the middle of its second token line. -/
def secondPress : List Stretch :=
  firstRequest (serverReply 0xEC 0 0 0) ++
    [.put .speech 77, .act .keyWake, .act (.keyPoll (some 116)), .put .key 1000, .put .speech 1000,
     .act .speechClose, .put .speech 1000, .act .speechDone]

/-- What the bridge speaks of the announcement of 21:12:56. -/
def corrupted : Text :=
  "the tkey: time request received! is twenty one hours twelve minutes and fifty six seconds".toList

theorem runSchedule_secondPress :
    (runSchedule Scheduled (State.init qemuHw ⟨0, 0, 0⟩) secondPress).map
        (fun s => (completed s.history, (readOutput .ascii [] (s.uart.map (·.2))).st.spoken)) =
      some ([⟨21, 12, 56⟩], [corrupted]) := by decide +kernel

/-- The scheduler allows a run in which the one completed announcement is spoken as something else. -/
theorem preemption_corrupts :
    ∃ s, Reaches step Scheduled (State.init qemuHw ⟨0, 0, 0⟩) s ∧ completed s.history = [⟨21, 12, 56⟩] ∧
      (readOutput .ascii [] (s.uart.map (·.2))).st.spoken = [corrupted] ∧
      (readOutput .ascii [] (s.uart.map (·.2))).st.spoken ≠
        (completed s.history).flatMap fun m => (readOutput .ascii [] (speakTime m)).st.spoken := by
  obtain ⟨s, hrun, heq⟩ := Option.map_eq_some_iff.mp runSchedule_secondPress
  obtain ⟨hcompl, hspoken⟩ := Prod.mk.inj heq
  refine ⟨s, reaches_of_runSchedule steady_scheduled hrun, hcompl, hspoken, ?_⟩
  rw [hcompl, hspoken]
  decide +kernel

end SpeakingClock
