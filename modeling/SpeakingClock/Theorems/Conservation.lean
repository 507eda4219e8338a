import SpeakingClock.Theorems.Answer
import SpeakingClock.Theorems.Schedule

/-! No announcement is lost, duplicated, reordered or invented. The history tells which queries succeeded
    and what became of each result; in every reachable state the results whose send did not time out are
    those received, then the content of the queue, then the message still to be sent. -/

namespace SpeakingClock

/-! ### What the history tells -/

/-- What became of the result of a successful query. -/
inductive SendOutcome where
  | pending
  | sent
  | timedOut
  deriving DecidableEq, Repr

def settle (o : SendOutcome) (log : List (TimeMsg × SendOutcome)) : List (TimeMsg × SendOutcome) :=
  match log.getLast? with
  | some (m, .pending) => log.dropLast ++ [(m, o)]
  | _ => log

def noteSend (log : List (TimeMsg × SendOutcome)) : Event → List (TimeMsg × SendOutcome)
  | .queried _ (some m) => log ++ [(m, .pending)]
  | .sent _ => settle .sent log
  | .sendTimedOut _ => settle .timedOut log
  | _ => log

/-- The results of the successful queries, in order, each with what became of it. -/
def sendLog (h : List Event) : List (TimeMsg × SendOutcome) := h.foldl noteSend []

def Event.success? : Event → Option TimeMsg
  | .queried _ r => r
  | _ => none

def Event.abandoned? : Event → Option TimeMsg
  | .sendTimedOut m => some m
  | _ => none

def Event.received? : Event → Option TimeMsg
  | .received m => some m
  | _ => none

def Event.spoken? : Event → Option TimeMsg
  | .spoke m => some m
  | _ => none

abbrev successes (h : List Event) : List TimeMsg := h.filterMap Event.success?
abbrev abandoned (h : List Event) : List TimeMsg := h.filterMap Event.abandoned?
abbrev received (h : List Event) : List TimeMsg := h.filterMap Event.received?
abbrev completed (h : List Event) : List TimeMsg := h.filterMap Event.spoken?

def State.sending (s : State) : List TimeMsg := match s.ntp.pc with | .send _ => [s.ntp.msg] | _ => []

def SpeechPc.speaking : SpeechPc → List TimeMsg
  | .receive => []
  | .announce m => [m]
  | .close m => [m]

theorem sendLog_append (h es : List Event) : sendLog (h ++ es) = es.foldl noteSend (sendLog h) := List.foldl_append

@[simp] theorem settle_snoc (o : SendOutcome) (log : List (TimeMsg × SendOutcome)) (m : TimeMsg) :
    settle o (log ++ [(m, .pending)]) = log ++ [(m, o)] := by simp [settle]

/-- The event concerns no message. -/
structure Event.Quiet (e : Event) : Prop where
  log : ∀ log, noteSend log e = log
  success : e.success? = none
  abandoned : e.abandoned? = none
  received : e.received? = none
  spoken : e.spoken? = none

section
variable {es : List Event}

theorem quiet_loopEnd (retries : Nat) : ∀ e ∈ loopEnd retries, e.Quiet := by
  have hfailed : Event.Quiet .allRetriesFailed := ⟨fun _ => rfl, rfl, rfl, rfl, rfl⟩
  have hdone : Event.Quiet .roundDone := ⟨fun _ => rfl, rfl, rfl, rfl, rfl⟩
  unfold loopEnd
  split <;> simp [hfailed, hdone]

theorem foldl_noteSend_quiet (h : ∀ e ∈ es, e.Quiet) (log : List (TimeMsg × SendOutcome)) :
    es.foldl noteSend log = log := by
  induction es generalizing log with
  | nil => rfl
  | cons e es ih =>
    rw [List.foldl_cons, (h e List.mem_cons_self).log, ih fun e' he' => h e' (List.mem_cons_of_mem _ he')]

theorem successes_append_quiet (h : ∀ e ∈ es, e.Quiet) (hs : List Event) : successes (hs ++ es) = successes hs := by
  simpa using fun e he => (h e he).success

theorem abandoned_append_quiet (h : ∀ e ∈ es, e.Quiet) (hs : List Event) : abandoned (hs ++ es) = abandoned hs := by
  simpa using fun e he => (h e he).abandoned

theorem received_append_quiet (h : ∀ e ∈ es, e.Quiet) (hs : List Event) : received (hs ++ es) = received hs := by
  simpa using fun e he => (h e he).received

theorem completed_append_quiet (h : ∀ e ∈ es, e.Quiet) (hs : List Event) : completed (hs ++ es) = completed hs := by
  simpa using fun e he => (h e he).spoken

end

/-! ### The invariant -/

/-- Where the results of the successful queries are. -/
structure Conserved (s : State) : Prop where
  results : (sendLog s.history).map (·.1) = successes s.history
  places : ((sendLog s.history).filter (·.2 ≠ .timedOut)).map (·.1) = received s.history ++ s.queue ++ s.sending
  dropped : ((sendLog s.history).filter (·.2 = .timedOut)).map (·.1) = abandoned s.history
  /-- The result that `ntp_task` is trying to send is the last one. -/
  last : ∀ r, s.ntp.pc = .send r → ∃ log, sendLog s.history = log ++ [(s.ntp.msg, .pending)]
  queue : s.queue.length ≤ 1
  range : ∀ m ∈ successes s.history, m.InRange
  spoken : received s.history = completed s.history ++ s.speech.pc.speaking

theorem conserved_init (hw : HwInit) (msg : TimeMsg) : Conserved (State.init hw msg) where
  results := rfl
  places := rfl
  dropped := rfl
  last r h := by cases h
  queue := by simp [State.init]
  range := by simp [State.init]
  spoken := rfl

section
variable {s t : State}

theorem Conserved.quiet (h : Conserved s) {es : List Event} (hes : ∀ e ∈ es, e.Quiet)
    (hhist : t.history = s.history ++ es) (hqueue : t.queue = s.queue)
    (hsend : ∀ r, t.ntp.pc = .send r → s.ntp.pc = .send r) (hmsg : t.sending = s.sending)
    (hspeech : t.speech.pc.speaking = s.speech.pc.speaking) : Conserved t := by
  have hlog : sendLog t.history = sendLog s.history := by rw [hhist, sendLog_append, foldl_noteSend_quiet hes]
  exact {
    results := by rw [hlog, h.results, hhist, successes_append_quiet hes]
    places := by rw [hlog, h.places, hhist, received_append_quiet hes, hqueue, hmsg]
    dropped := by rw [hlog, h.dropped, hhist, abandoned_append_quiet hes]
    last := fun r hr => by
      have hm : t.ntp.msg = s.ntp.msg := by simpa [State.sending, hr, hsend r hr] using hmsg
      rw [hlog, hm]
      exact h.last r (hsend r hr)
    queue := hqueue ▸ h.queue
    range := by
      rw [hhist, successes_append_quiet hes]
      exact h.range
    spoken := by
      rw [hhist, received_append_quiet hes, completed_append_quiet hes, hspeech]
      exact h.spoken }

/-- The end of a send: the last result gets its outcome, and the round ends. -/
theorem Conserved.settled (h : Conserved s) {retries : Nat} {e : Event} {o : SendOutcome}
    (pc : s.ntp.pc = .send retries) (hnote : ∀ log, noteSend log e = settle o log)
    (hhist : t.history = s.history ++ [e] ++ loopEnd retries) (hpc : t.ntp.pc = .poll)
    (hspeech : t.speech = s.speech) (hnone : e.success? = none ∧ e.received? = none ∧ e.spoken? = none)
    (haband : e.abandoned? = if o = .timedOut then some s.ntp.msg else none)
    (hqueue : t.queue = if o = .timedOut then s.queue else s.queue ++ [s.ntp.msg]) (hlen : t.queue.length ≤ 1) :
    Conserved t := by
  obtain ⟨hsucc, hrecv, hspoke⟩ := hnone
  obtain ⟨log, hlog⟩ := h.last retries pc
  have hq := quiet_loopEnd retries
  have hlog' : sendLog t.history = log ++ [(s.ntp.msg, o)] := by
    rw [hhist, sendLog_append, foldl_noteSend_quiet hq, sendLog_append, hlog, List.foldl_cons, List.foldl_nil, hnote,
      settle_snoc]
  have hsuccs : successes t.history = successes s.history := by
    rw [hhist, successes_append_quiet hq]
    simp [hsucc]
  have hrecvs : received t.history = received s.history := by
    rw [hhist, received_append_quiet hq]
    simp [hrecv]
  have hplaces : ((log.filter (·.2 ≠ .timedOut)).map (·.1)) = received s.history ++ s.queue := by
    have := h.places
    simp only [hlog, State.sending, pc, List.filter_append, List.map_append] at this
    exact List.append_cancel_right (this : _ ++ [s.ntp.msg] = _ ++ [s.ntp.msg])
  exact {
    results := by
      rw [hlog', hsuccs, ← h.results, hlog]
      simp
    places := by
      rw [hlog', hrecvs, hqueue, List.filter_append, List.map_append, hplaces]
      by_cases ho : o = .timedOut <;> simp [ho, State.sending, hpc]
    dropped := by
      have hdropped := h.dropped
      rw [hlog] at hdropped
      rw [hlog', hhist, abandoned_append_quiet hq]
      by_cases ho : o = .timedOut <;> simpa [ho, haband, List.filterMap_cons] using hdropped
    last := fun r hr => by rw [hpc] at hr; cases hr
    queue := hlen
    range := hsuccs ▸ h.range
    spoken := by
      rw [hrecvs, hspeech, h.spoken, hhist, completed_append_quiet hq]
      simp [hspoke] }

theorem Conserved.step {a : Action} (h : Conserved s) (hstep : Step s a t) : Conserved t := by
  have nothing : ∀ e ∈ ([] : List Event), e.Quiet := by simp
  have one : ∀ e : Event, e.Quiet → ∀ e' ∈ [e], e'.Quiet := fun e he => by simpa using he
  cases hstep with
  | keyPutc | ntpPutc | speechPutc | keyIgnore | keyWake =>
    exact h.quiet nothing (List.append_nil _).symm rfl (fun r hr => hr) rfl rfl
  | keyAccept | keyGive =>
    exact h.quiet (one _ ⟨fun _ => rfl, rfl, rfl, rfl, rfl⟩) rfl rfl (fun r hr => hr) rfl rfl
  | @ntpMove a pc' app' move =>
    have hpcs : ∀ r, s.ntp.pc ≠ .send r ∧ pc' ≠ .send r := fun r => by
      generalize s.ntp.pc = pc at move
      cases move <;> simp
    have hsending : ∀ u : State, (∀ r, u.ntp.pc ≠ .send r) → u.sending = [] := fun u hu => by
      unfold State.sending
      split
      · rename_i r hr
        exact absurd hr (hu r)
      · rfl
    refine h.quiet nothing (List.append_nil _).symm rfl (fun r hr => absurd hr (hpcs r).2) ?_ rfl
    rw [hsending s fun r => (hpcs r).1]
    exact hsending _ fun r => (hpcs r).2
  | ntpTake pc | retry pc =>
    exact h.quiet (one _ ⟨fun _ => rfl, rfl, rfl, rfl, rfl⟩) rfl rfl (by simp) (by simp [State.sending, pc]) rfl
  | @giveUp retries env app' pc =>
    have hq : ∀ e ∈ Event.queried env none :: loopEnd 0, e.Quiet :=
      List.forall_mem_cons.mpr ⟨⟨fun _ => rfl, rfl, rfl, rfl, rfl⟩, quiet_loopEnd 0⟩
    exact h.quiet hq rfl rfl (by simp) (by simp [State.sending, pc]) rfl
  | close pc =>
    exact h.quiet nothing (List.append_nil _).symm rfl (fun r hr => hr) rfl (by rw [pc]; rfl)
  | @answered retries env p app' pc =>
    have hplaces := h.places
    rw [show s.sending = [] by simp [State.sending, pc], List.append_nil] at hplaces
    exact {
      results := by simp [sendLog_append, noteSend, h.results, Event.success?]
      places := by
        simp only [sendLog_append, List.foldl_cons, List.foldl_nil, noteSend, List.filter_append, List.map_append,
          hplaces]
        simp [State.sending, Event.received?, List.filterMap_cons]
      dropped := by simp [sendLog_append, noteSend, h.dropped, Event.abandoned?, List.filterMap_cons]
      last := fun r _ => ⟨sendLog s.history, by simp [sendLog_append, noteSend]⟩
      queue := h.queue
      range := fun m hm => by
        simp only [List.filterMap_append] at hm
        rcases List.mem_append.mp hm with hm | hm
        · exact h.range m hm
        · rw [List.mem_singleton.mp hm]
          exact (istOfTimestamp_fields _).1
      spoken := by simpa [Event.received?, Event.spoken?, List.filterMap_cons] using h.spoken }
  | ntpSend pc out free =>
    refine h.settled pc (o := SendOutcome.sent) (fun _ => rfl) (List.append_cons _ _ _) rfl rfl ⟨rfl, rfl, rfl⟩ rfl ?_ ?_
    · simp [free]
    · simp
  | ntpSendTimeout pc =>
    exact h.settled pc (o := SendOutcome.timedOut) (fun _ => rfl) (List.append_cons _ _ _) rfl rfl ⟨rfl, rfl, rfl⟩ rfl rfl h.queue
  | @receive m queue pc out head =>
    have hplaces := h.places
    have hqueue := h.queue
    have hspoken := h.spoken
    rw [head] at hplaces hqueue
    rw [pc] at hspoken
    exact {
      results := by simpa [sendLog_append, noteSend, Event.success?, List.filterMap_cons] using h.results
      places := by simpa [sendLog_append, noteSend, State.sending, Event.received?, List.filterMap_cons] using hplaces
      dropped := by simpa [sendLog_append, noteSend, Event.abandoned?, List.filterMap_cons] using h.dropped
      last := by simpa [sendLog_append, noteSend] using h.last
      queue := Nat.le_trans (Nat.le_succ _) hqueue
      range := by simpa [Event.success?, List.filterMap_cons] using h.range
      spoken := by simpa [SpeechPc.speaking, Event.received?, Event.spoken?, List.filterMap_cons] using hspoken }
  | @done m pc out =>
    have hspoken := h.spoken
    rw [pc] at hspoken
    exact {
      results := by simpa [sendLog_append, noteSend, Event.success?, List.filterMap_cons] using h.results
      places := by simpa [sendLog_append, noteSend, State.sending, Event.received?, List.filterMap_cons] using h.places
      dropped := by simpa [sendLog_append, noteSend, Event.abandoned?, List.filterMap_cons] using h.dropped
      last := by simpa [sendLog_append, noteSend] using h.last
      queue := h.queue
      range := by simpa [Event.success?, List.filterMap_cons] using h.range
      spoken := by simpa [SpeechPc.speaking, Event.received?, Event.spoken?, List.filterMap_cons] using hspoken }

theorem Reachable.conserved (h : Reachable s) : Conserved s :=
  h.invariant conserved_init fun _ _ _ hs hstep => hs.step hstep

/-- **No announcement is lost, duplicated, reordered or invented.** The log lists the results of all
    successful queries; those whose send timed out are exactly the abandoned ones, and the others are
    what `speech_task` received, then the queue, then the message still to be sent. Everything that
    reaches `speak_time` is in range, so it sends all ten tokens. -/
theorem announcements_conserved (h : Reachable s) :
    (sendLog s.history).map (·.1) = successes s.history ∧
    ((sendLog s.history).filter (·.2 = .timedOut)).map (·.1) = abandoned s.history ∧
    ((sendLog s.history).filter (·.2 ≠ .timedOut)).map (·.1) = received s.history ++ s.queue ++ s.sending ∧
    received s.history = completed s.history ++ s.speech.pc.speaking ∧
    s.queue.length ≤ 1 ∧
    (received s.history).Sublist (successes s.history) ∧
    ∀ m ∈ received s.history, m.InRange ∧ timeTokens m =
      [tokenThe, tokenTime, tokenIs,
        numberWord m.hour, if m.hour == 1 then tokenHour else tokenHours,
        numberWord m.minute, if m.minute == 1 then tokenMinute else tokenMinutes,
        tokenAnd,
        numberWord m.second, if m.second == 1 then tokenSecond else tokenSeconds] := by
  have inv := h.conserved
  have hsub : (received s.history).Sublist (successes s.history) := by
    have hkept : (received s.history ++ s.queue ++ s.sending).Sublist (successes s.history) := by
      rw [← inv.places, ← inv.results]
      exact List.filter_sublist.map _
    rw [List.append_assoc] at hkept
    exact (List.sublist_append_left _ _).trans hkept
  refine ⟨inv.results, inv.dropped, inv.places, inv.spoken, inv.queue, hsub, fun m hm => ?_⟩
  have hrange := inv.range m (hsub.subset hm)
  exact ⟨hrange, timeTokens_of_inRange hrange⟩

end

/-- Three results: two were received and announced, and the third was abandoned. -/
theorem announcements_conserved_three : ∃ s, Reachable s ∧
    successes s.history = [⟨21, 12, 56⟩, ⟨21, 17, 12⟩, ⟨21, 21, 28⟩] ∧
    ((sendLog s.history).filter (·.2 = .timedOut)).map (·.1) = [⟨21, 21, 28⟩] ∧
    received s.history ++ s.queue ++ s.sending = [⟨21, 12, 56⟩, ⟨21, 17, 12⟩] ∧
    received s.history = completed s.history ++ s.speech.pc.speaking ∧
    (received s.history).Sublist (successes s.history) := by
  obtain ⟨s, hreach, hhist, -⟩ := reachable_threeRounds
  obtain ⟨-, hdropped, hplaces, hspoken, -, hsub, -⟩ := announcements_conserved hreach
  refine ⟨s, hreach, ?_, hdropped.trans ?_, hplaces.symm.trans ?_, hspoken, hsub⟩
  all_goals
    rw [hhist]
    decide +kernel

end SpeakingClock
