import SpeakingClock.Lib.Run
import SpeakingClock.Theorems.Logs

/-! What a step of the firmware does (`Step`), said once; the invariants of the other modules are case
    analyses of it. The state of the network code after a step is known only by the log lines it adds. -/

namespace SpeakingClock
open Run

/-- Moves of `ntp_task` outside a request round and out of a retry delay. -/
inductive NtpMove : NtpPc → NtpPc → Prop where
  | ready : NtpMove .waitDhcp .take
  | notReady : NtpMove .waitDhcp .dhcpDelay
  | checkAgain : NtpMove .dhcpDelay .waitDhcp
  | takeTimeout : NtpMove .take .poll
  | poll : NtpMove .poll .take
  | retry (retries : Nat) : NtpMove (.retryDelay retries) (.query retries)

def loopEnd (retries : Nat) : List Event := if retries = 0 then [.allRetriesFailed, .roundDone] else [.roundDone]

/-- What the steps do. -/
inductive Step (s : State) : Action → State → Prop where
  | keyPutc {b : UInt8} {bs : Bytes} (out : s.key.out = b :: bs) :
      Step s .keyPutc { s with key := { s.key with out := bs }, uart := s.uart ++ [(.key, b)] }
  | ntpPutc {b : UInt8} {bs : Bytes} (out : s.ntp.app.uart = b :: bs) :
      Step s .ntpPutc
        { s with ntp := { s.ntp with app := { s.ntp.app with uart := bs } }, uart := s.uart ++ [(.ntp, b)] }
  | speechPutc {b : UInt8} {bs : Bytes} (out : s.speech.out = b :: bs) :
      Step s .speechPutc { s with speech := { s.speech with out := bs }, uart := s.uart ++ [(.speech, b)] }
  | keyAccept (c : UInt8) (pc : s.key.pc = .poll) (out : s.key.out = []) (tT : c = 116 ∨ c = 84) :
      Step s (.keyPoll (some c))
        { s with key := ⟨.give, cstr "Key: Time request received!\r\n"⟩, history := s.history ++ [.accepted] }
  | keyIgnore (rx : Option UInt8) (pc : s.key.pc = .poll) (out : s.key.out = []) :
      Step s (.keyPoll rx) { s with key := ⟨.delay, []⟩ }
  | keyGive (pc : s.key.pc = .give) (out : s.key.out = []) :
      Step s .keyGive { s with key := ⟨.delay, []⟩, sem := true, history := s.history ++ [.gave] }
  | keyWake (pc : s.key.pc = .delay) (out : s.key.out = []) : Step s .keyWake { s with key := ⟨.poll, []⟩ }
  | ntpMove {a : Action} {pc' : NtpPc} {app' : App} (move : NtpMove s.ntp.pc pc') (out : s.ntp.app.uart = [])
      (logs : s.ntp.app.Logs app') (query : ∀ env, a ≠ .ntpQuery env) :
      Step s a { s with ntp := ⟨pc', s.ntp.msg, app'⟩ }
  | ntpTake {app' : App} (pc : s.ntp.pc = .take) (out : s.ntp.app.uart = []) (sem : s.sem = true)
      (logs : s.ntp.app.Logs app') :
      Step s .ntpTake { s with ntp := ⟨.query 3, s.ntp.msg, app'⟩, sem := false, history := s.history ++ [.took] }
  | answered {retries : Nat} {env : QueryEnv} {p : Pbuf} {app' : App} (pc : s.ntp.pc = .query retries)
      (out : s.ntp.app.uart = []) (answer : env.answer = some p) (logs : s.ntp.app.Logs app') :
      Step s (.ntpQuery env)
        { s with
          ntp := ⟨.send retries, istOfTimestamp p.timestamp, app'⟩
          history := s.history ++ [.queried env (some (istOfTimestamp p.timestamp))] }
  | retry {retries : Nat} {env : QueryEnv} {app' : App} (pc : s.ntp.pc = .query (retries + 2))
      (out : s.ntp.app.uart = []) (answer : env.answer = none) (logs : s.ntp.app.Logs app') :
      Step s (.ntpQuery env)
        { s with
          ntp := ⟨.retryDelay (retries + 1), s.ntp.msg, app'⟩
          history := s.history ++ [.queried env none] }
  | giveUp {retries : Nat} {env : QueryEnv} {app' : App} (pc : s.ntp.pc = .query retries) (last : retries ≤ 1)
      (out : s.ntp.app.uart = []) (answer : env.answer = none) (logs : s.ntp.app.Logs app') :
      Step s (.ntpQuery env)
        { s with ntp := ⟨.poll, s.ntp.msg, app'⟩, history := s.history ++ .queried env none :: loopEnd 0 }
  | ntpSend {retries : Nat} {app' : App} (pc : s.ntp.pc = .send retries) (out : s.ntp.app.uart = [])
      (free : s.queue = []) (logs : s.ntp.app.Logs app') :
      Step s .ntpSend
        { s with
          ntp := ⟨.poll, s.ntp.msg, app'⟩
          queue := [s.ntp.msg]
          history := s.history ++ .sent s.ntp.msg :: loopEnd retries }
  | ntpSendTimeout {retries : Nat} {app' : App} (pc : s.ntp.pc = .send retries) (out : s.ntp.app.uart = [])
      (logs : s.ntp.app.Logs app') :
      Step s .ntpSendTimeout
        { s with
          ntp := ⟨.poll, s.ntp.msg, app'⟩
          history := s.history ++ .sendTimedOut s.ntp.msg :: loopEnd retries }
  | receive {m : TimeMsg} {queue : List TimeMsg} (pc : s.speech.pc = .receive) (out : s.speech.out = [])
      (head : s.queue = m :: queue) :
      Step s .speechReceive
        { s with
          speech := ⟨.announce m, announceLine m ++ speakTokens m⟩
          queue := queue
          history := s.history ++ [.received m] }
  | close {m : TimeMsg} (pc : s.speech.pc = .announce m) (out : s.speech.out = []) :
      Step s .speechClose { s with speech := ⟨.close m, speakTrailer⟩ }
  | done {m : TimeMsg} (pc : s.speech.pc = .close m) (out : s.speech.out = []) :
      Step s .speechDone { s with speech := ⟨.receive, []⟩, history := s.history ++ [.spoke m] }

section
variable {s t : State} {a : Action}

theorem putc_inv {w : Writer} (ha : a = .keyPutc ∧ w = .key ∨ a = .ntpPutc ∧ w = .ntp ∨ a = .speechPutc ∧ w = .speech)
    (h : s.putc w = some t) : Step s a t := by
  rcases ha with ⟨rfl, rfl⟩ | ⟨rfl, rfl⟩ | ⟨rfl, rfl⟩
  · simp only [State.putc] at h
    cases hout : s.key.out with
    | nil => simp [hout] at h
    | cons b bs =>
      simp only [hout, Option.some.injEq] at h
      exact h ▸ .keyPutc hout
  · simp only [State.putc] at h
    cases hout : s.ntp.app.uart with
    | nil => simp [hout] at h
    | cons b bs =>
      simp only [hout, Option.some.injEq] at h
      exact h ▸ .ntpPutc hout
  · simp only [State.putc] at h
    cases hout : s.speech.out with
    | nil => simp [hout] at h
    | cons b bs =>
      simp only [hout, Option.some.injEq] at h
      exact h ▸ .speechPutc hout

theorem keyStep_inv (out : s.key.out = []) (h : s.keyStep a = some t) : Step s a t := by
  unfold State.keyStep at h
  cases hpc : s.key.pc with
  | poll =>
    cases a with
    | keyPoll rx =>
      cases rx with
      | some c =>
        by_cases tT : c = 116 ∨ c = 84
        · simp only [hpc, if_pos tT, Option.some.injEq] at h
          exact h ▸ .keyAccept c hpc out tT
        · simp only [hpc, if_neg tT, Option.some.injEq] at h
          exact h ▸ .keyIgnore _ hpc out
      | none =>
        simp only [hpc, Option.some.injEq] at h
        exact h ▸ .keyIgnore _ hpc out
    | _ => simp [hpc] at h
  | give =>
    cases a with
    | keyGive =>
      simp only [hpc, Option.some.injEq] at h
      exact h ▸ .keyGive hpc out
    | _ => simp [hpc] at h
  | delay =>
    cases a with
    | keyWake =>
      simp only [hpc, Option.some.injEq] at h
      exact h ▸ .keyWake hpc out
    | _ => simp [hpc] at h

theorem speechStep_inv (out : s.speech.out = []) (h : s.speechStep a = some t) : Step s a t := by
  unfold State.speechStep at h
  split at h
  · rename_i hpc
    split at h
    · cases h
    · rename_i m queue hq
      cases h
      exact .receive hpc out hq
  · rename_i m hpc
    cases h
    exact .close hpc out
  · rename_i m hpc
    cases h
    exact .done hpc out
  · cases h

theorem afterLoop_eq (s : State) (retries : Nat) (events : List Event) :
    ∃ app', s.ntp.app.Logs app' ∧ s.afterLoop retries events =
      { s with ntp := ⟨.poll, s.ntp.msg, app'⟩, history := s.history ++ (events ++ loopEnd retries) } := by
  unfold State.afterLoop loopEnd
  split
  · have hfailed : LogText (cstr "NTP Task: All retries failed!\r\n") := .of_split (by decide)
    exact ⟨_, (App.Logs.refl _).puts hfailed, by simp⟩
  · exact ⟨_, .refl _, by simp⟩

theorem attempt_inv {retries : Nat} (env : QueryEnv) (hpc : s.ntp.pc = .query retries) (out : s.ntp.app.uart = []) :
    Step s (.ntpQuery env) (s.attempt retries env) := by
  have hlogs := ntpGetTime_logs s.ntp.msg s.ntp.app env
  have hres := ntpGetTime_scripted s.ntp.msg s.ntp.app env
  cases hans : env.answer with
  | some p =>
    simp only [hans, Prod.mk.injEq] at hres
    simp only [State.attempt, hres.1, hres.2, ↓reduceIte]
    exact .answered hpc out hans (hlogs.puts (by
      have htail : cstr " IST\r\n" = cstr " IST" ++ cstr "\r\n" := by decide
      have hist : lf ∉ cstr " IST" := by decide
      rw [htail, ← List.append_assoc, List.append_assoc (cstr "NTP Task: Time = ")]
      exact .line (by decide) (by decide) (by simp [lf_not_mem_fmt, hist])))
  | none =>
    simp only [hans, Prod.mk.injEq] at hres
    simp only [State.attempt, hres.1, hres.2, show ¬((-1 : Int) = 0) by decide, ↓reduceIte, gt_iff_lt]
    split
    · rename_i hpos
      obtain ⟨r, rfl⟩ : ∃ r, retries = r + 2 := ⟨retries - 2, by omega⟩
      refine .retry hpc out hans (hlogs.puts ?_)
      have htail : cstr " remaining)...\r\n" = cstr " remaining)..." ++ cstr "\r\n" := by decide
      have hrem : lf ∉ cstr " remaining)..." := by decide
      rw [htail, ← List.append_assoc, List.append_assoc (cstr "NTP Task: Retry (")]
      exact .line (by decide) (by decide) (by simp [lf_not_mem_fmtU, hrem])
    · rename_i hpos
      obtain ⟨app', hlogs', heq⟩ := afterLoop_eq
        { s with ntp := { s.ntp with msg := s.ntp.msg, app := (ntpGetTime scripted s.ntp.msg (s.ntp.app, env)).2.2.1 } }
        (retries - 1) [.queried env none]
      rw [heq, show retries - 1 = 0 by omega]
      exact .giveUp hpc (by omega) out hans (hlogs.trans hlogs')

theorem ntpStep_inv (out : s.ntp.app.uart = []) (h : s.ntpStep a = some t) : Step s a t := by
  unfold State.ntpStep at h
  split at h
  · rename_i cbs hpc
    split at h
    · cases h
      refine .ntpMove (hpc ▸ .ready) out (.puts (.puts (.refl _) ?_) ?_) (by simp)
      all_goals exact .of_split (by decide)
    · cases h
      exact .ntpMove (hpc ▸ .notReady) out (poll_logs _ _) (by simp)
  · rename_i hpc
    cases h
    exact .ntpMove (hpc ▸ .checkAgain) out (.refl _) (by simp)
  · rename_i hpc
    split at h
    · rename_i hsem
      cases h
      exact .ntpTake hpc out hsem ((App.Logs.refl _).puts (.of_split (by decide)))
    · cases h
  · rename_i hpc
    cases h
    exact .ntpMove (hpc ▸ .takeTimeout) out (.refl _) (by simp)
  · rename_i retries env hpc
    cases h
    exact attempt_inv env hpc out
  · rename_i retries hpc
    cases h
    exact .ntpMove (hpc ▸ .retry retries) out (.refl _) (by simp)
  · rename_i retries hpc
    split at h
    · rename_i hfree
      obtain ⟨app', hlogs, heq⟩ := afterLoop_eq { s with queue := [s.ntp.msg] } retries [.sent s.ntp.msg]
      rw [heq] at h
      cases h
      exact .ntpSend hpc out hfree hlogs
    · cases h
  · rename_i retries hpc
    obtain ⟨app', hlogs, heq⟩ := afterLoop_eq
      { s with ntp := { s.ntp with app := s.ntp.app.puts (cstr "NTP Task: Failed to send to queue!\r\n") } }
      retries [.sendTimedOut s.ntp.msg]
    rw [heq] at h
    cases h
    exact .ntpSendTimeout hpc out (App.Logs.trans ((App.Logs.refl _).puts (.of_split (by decide))) hlogs)
  · rename_i cbs hpc
    cases h
    exact .ntpMove (hpc ▸ .poll) out (poll_logs _ _) (by simp)
  · cases h

/-- Every step is one of `Step`. -/
theorem step_inv (h : step s a = some t) : Step s a t := by
  unfold step at h
  split at h
  · exact putc_inv (.inl ⟨rfl, rfl⟩) h
  · exact putc_inv (.inr (.inl ⟨rfl, rfl⟩)) h
  · exact putc_inv (.inr (.inr ⟨rfl, rfl⟩)) h
  · split at h
    · rename_i out
      cases htask : a.task with
      | main => simp [htask] at h
      | key =>
        rw [htask] at h out
        exact keyStep_inv out h
      | ntp =>
        rw [htask] at h out
        exact ntpStep_inv out h
      | speech =>
        rw [htask] at h out
        exact speechStep_inv out h
    · cases h

end

/-! ### Runs -/

/-- The states reached from the start of the scheduler, whatever the tasks' steps and their order. -/
def Reachable (s : State) : Prop := ∃ hw msg, Reaches step (fun _ _ => True) (State.init hw msg) s

/-- What holds when the scheduler starts and is kept by every step holds in every reachable state. -/
theorem Reachable.invariant {P : State → Prop} {s : State} (h : Reachable s) (start : ∀ hw msg, P (State.init hw msg))
    (kept : ∀ s a t, P s → Step s a t → P t) : P s := by
  obtain ⟨hw, msg, h⟩ := h
  exact Reaches.invariant h (start hw msg) fun s a t _ hs _ hstep => kept s a t hs (step_inv hstep)

end SpeakingClock
