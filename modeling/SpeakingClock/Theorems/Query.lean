import SpeakingClock.NtpClient

/-! What one call of `ntp_get_time` computes. The polling loop stops after the first poll in which the
    callback took a packet, and the last packet taken in that poll decides (`answer`). The loop reads
    lwIP only through the calls it makes at each poll, so this holds for every lwIP whose polls can be
    listed (`Lwip.Listed`), not only for the scripted one. -/

namespace SpeakingClock

variable {W : Type} {L : Lwip W}

/-! ### Callbacks -/

/-- What a call from lwIP does to the statics and the UART. -/
def Callback.run (cb : Callback) (app : App) : App :=
  match cb with
  | .recv p _ _ => p.elim app app.recv
  | .status ip netmask gw => netifStatusCallback ip netmask gw app

/-- The packet that `ntp_recv_callback` takes from a call. -/
def Callback.taken : Callback → Option Pbuf
  | .recv (some p) _ _ => if p.totLen ≥ ntpPacketSize then some p else none
  | _ => none

def Pbuf.timestamp (p : Pbuf) : UInt32 := transmitTimestamp (pbufCopyPartial p ntpPacketSize 0)

theorem dispatch_fst (cb : Callback) (s : App × W) : (dispatch L cb s).1 = cb.run s.1 := by
  cases cb with
  | recv p addr port => cases p <;> rfl
  | status ip netmask gw => rfl

/-- A call whose packet is not taken leaves the reply state alone. -/
theorem Callback.run_of_not_taken {cb : Callback} (h : cb.taken = none) (app : App) :
    (cb.run app).ntpResponseReceived = app.ntpResponseReceived ∧ (cb.run app).ntpTimestamp = app.ntpTimestamp := by
  rcases cb with ⟨_ | p, addr, port⟩ | ⟨ip, netmask, gw⟩
  · exact ⟨rfl, rfl⟩
  · have hp : ¬p.totLen ≥ ntpPacketSize := fun hp => by simp [Callback.taken, hp] at h
    simp [Callback.run, App.recv, hp]
  · simp only [Callback.run, netifStatusCallback, App.puts]
    split <;> exact ⟨rfl, rfl⟩

theorem Callback.run_of_taken {cb : Callback} {p : Pbuf} (h : cb.taken = some p) (app : App) :
    (cb.run app).ntpResponseReceived = true ∧ (cb.run app).ntpTimestamp = p.timestamp := by
  rcases cb with ⟨_ | q, addr, port⟩ | ⟨ip, netmask, gw⟩
  · cases h
  · by_cases hq : q.totLen ≥ ntpPacketSize
    · simp only [Callback.taken, hq, ↓reduceIte, Option.some.injEq] at h
      subst h
      simp [Callback.run, App.recv, hq, Pbuf.timestamp]
    · simp [Callback.taken, hq] at h
  · cases h

def runPoll (cbs : List Callback) (app : App) : App := cbs.foldl (fun app cb => cb.run app) app

/-- The last packet taken in a poll is the one that counts. -/
theorem runPoll_reply (cbs : List Callback) (app : App) :
    ((runPoll cbs app).ntpResponseReceived, (runPoll cbs app).ntpTimestamp) =
      match (cbs.filterMap Callback.taken).getLast? with
      | some p => (true, p.timestamp)
      | none => (app.ntpResponseReceived, app.ntpTimestamp) := by
  induction cbs using List.reverseRecOn with
  | nil => rfl
  | append_singleton cbs cb ih =>
    simp only [runPoll, List.foldl_append, List.foldl_cons, List.foldl_nil] at ih ⊢
    rw [List.filterMap_append]
    cases hcb : cb.taken with
    | none =>
      obtain ⟨h1, h2⟩ := Callback.run_of_not_taken hcb (cbs.foldl (fun app cb => cb.run app) app)
      rw [h1, h2, ih]
      simp [hcb]
    | some p =>
      obtain ⟨h1, h2⟩ := Callback.run_of_taken hcb (cbs.foldl (fun app cb => cb.run app) app)
      simp [h1, h2, hcb]

/-! ### The polling loop -/

def waitPolls : Nat → List (List Callback) → App → App
  | 0, _, app => app
  | timeout + 1, polls, app =>
    if app.ntpResponseReceived then app else waitPolls timeout polls.tail (runPoll (polls.headD []) app)

/-- The packet that decides a query: the last one taken in the first of the next `timeout` polls in
    which one is taken. -/
def answer : Nat → List (List Callback) → Option Pbuf
  | 0, _ => none
  | timeout + 1, polls =>
    match ((polls.headD []).filterMap Callback.taken).getLast? with
    | some p => some p
    | none => answer timeout polls.tail

theorem answer_congr {timeout : Nat} {polls polls' : List (List Callback)}
    (h : ∀ k < timeout, (polls.getD k []).filterMap Callback.taken = (polls'.getD k []).filterMap Callback.taken) :
    answer timeout polls = answer timeout polls' := by
  have head : ∀ ps : List (List Callback), ps.headD [] = ps.getD 0 [] := fun ps => by cases ps <;> rfl
  have tail : ∀ (ps : List (List Callback)) (k : Nat), ps.tail.getD k [] = ps.getD (k + 1) [] := fun ps k => by
    cases ps <;> rfl
  induction timeout generalizing polls polls' with
  | zero => rfl
  | succ timeout ih =>
    have hrest : answer timeout polls.tail = answer timeout polls'.tail :=
      ih fun k hk => by rw [tail, tail, h (k + 1) (by omega)]
    rw [answer, answer, head, head, h 0 (by omega), hrest]

theorem waitPolls_received {app : App} (h : app.ntpResponseReceived = true) (timeout : Nat)
    (polls : List (List Callback)) : waitPolls timeout polls app = app := by
  cases timeout <;> simp [waitPolls, h]

/-- The loop ends with the answer's timestamp, or with no reply when there is no answer. -/
theorem waitPolls_reply (timeout : Nat) (polls : List (List Callback)) {app : App}
    (h : app.ntpResponseReceived = false) :
    ((waitPolls timeout polls app).ntpResponseReceived, (waitPolls timeout polls app).ntpTimestamp) =
      match answer timeout polls with
      | some p => (true, p.timestamp)
      | none => (false, app.ntpTimestamp) := by
  induction timeout generalizing polls app with
  | zero => simp [waitPolls, answer, h]
  | succ timeout ih =>
    have hpoll := runPoll_reply (polls.headD []) app
    rw [waitPolls, if_neg (by simp [h]), answer]
    cases hlast : ((polls.headD []).filterMap Callback.taken).getLast? with
    | none =>
      simp only [hlast, h, Prod.mk.injEq] at hpoll
      rw [ih polls.tail hpoll.1, hpoll.2]
    | some p =>
      simp only [hlast, Prod.mk.injEq] at hpoll
      rw [waitPolls_received hpoll.1, hpoll.1, hpoll.2]

/-- The polls of `L` from the states in `I` can be listed: each poll makes the first list of calls, and
    leaves a state in `I` with the others. -/
structure Lwip.Listed (L : Lwip W) (I : W → Prop) (polls : W → List (List Callback)) : Prop where
  poll : ∀ app w, I w → (lwipPeriodicHandle L (app, w)).1 = runPoll ((polls w).headD []) app ∧
    I (lwipPeriodicHandle L (app, w)).2 ∧ polls (lwipPeriodicHandle L (app, w)).2 = (polls w).tail

theorem Lwip.Listed.waitResponse {I : W → Prop} {polls : W → List (List Callback)} (H : L.Listed I polls)
    (timeout : Nat) {app : App} {w : W} (hw : I w) :
    (waitResponse L timeout (app, w)).1 = waitPolls timeout (polls w) app ∧
      I (SpeakingClock.waitResponse L timeout (app, w)).2 := by
  induction timeout generalizing app w with
  | zero => exact ⟨rfl, hw⟩
  | succ timeout ih =>
    obtain ⟨happ, hI, htail⟩ := H.poll app w hw
    rw [SpeakingClock.waitResponse, waitPolls]
    split
    · exact ⟨rfl, hw⟩
    · have := @ih (lwipPeriodicHandle L (app, w)).1 _ hI
      rw [htail] at this
      rwa [← happ]

theorem Lwip.Listed.awaitReply {I : W → Prop} {polls : W → List (List Callback)} (H : L.Listed I polls) (pcb : Nat)
    (msg : TimeMsg) {app : App} {w : W} (hw : I w) (happ : app.ntpResponseReceived = false) :
    ((awaitReply L pcb msg (app, w)).1, (SpeakingClock.awaitReply L pcb msg (app, w)).2.1) =
      match answer ntpTimeoutCycles (polls w) with
      | some p => (0, istOfTimestamp p.timestamp)
      | none => (-1, msg) := by
  have hreply := waitPolls_reply ntpTimeoutCycles (polls w) happ
  rw [← (H.waitResponse ntpTimeoutCycles hw).1] at hreply
  unfold SpeakingClock.awaitReply
  cases hans : answer ntpTimeoutCycles (polls w) with
  | none =>
    simp only [hans, Prod.mk.injEq] at hreply
    simp [hreply.1]
  | some p =>
    simp only [hans, Prod.mk.injEq] at hreply
    simp [hreply.1, hreply.2, App.puts]

theorem awaitReply_world (pcb : Nat) (msg : TimeMsg) (s : App × W) :
    (awaitReply L pcb msg s).2.2.2 = L.udpRemove pcb (waitResponse L ntpTimeoutCycles s).2 := by
  unfold awaitReply
  dsimp only
  split <;> rfl

/-! ### Exits -/

/-- The exits of `ntp_get_time`, each with what it returns and what it has done to lwIP. -/
inductive Exit (L : Lwip W) (msg : TimeMsg) (w : W) : Int × TimeMsg × App × W → Prop where
  | noPcb {w₁ : W} (app : App) (new : L.udpNew w = (none, w₁)) : Exit L msg w (-1, msg, app, w₁)
  | noPbuf {pcb : Nat} {w₁ w₂ : W} (app : App) (new : L.udpNew w = (some pcb, w₁))
      (alloc : L.pbufAlloc (L.udpRecv pcb (L.udpBind pcb w₁)) = (none, w₂)) :
      Exit L msg w (-1, msg, app, L.udpRemove pcb w₂)
  | sendFailed {pcb p : Nat} {w₁ w₂ w₃ : W} {err : Int} (app : App) (new : L.udpNew w = (some pcb, w₁))
      (alloc : L.pbufAlloc (L.udpRecv pcb (L.udpBind pcb w₁)) = (some p, w₂))
      (send : L.udpSendto pcb p ntpRequest serverAddr ntpPort w₂ = (err, w₃)) (failed : err ≠ 0) :
      Exit L msg w (-1, msg, app, L.udpRemove pcb (L.pbufFree p w₃))
  | sent {pcb p : Nat} {w₁ w₂ w₃ : W} {app : App} (new : L.udpNew w = (some pcb, w₁))
      (alloc : L.pbufAlloc (L.udpRecv pcb (L.udpBind pcb w₁)) = (some p, w₂))
      (send : L.udpSendto pcb p ntpRequest serverAddr ntpPort w₂ = (0, w₃))
      (reset : app.ntpResponseReceived = false) :
      Exit L msg w (awaitReply L pcb msg (app, L.pbufFree p w₃))

theorem ntpGetTime_exit (L : Lwip W) (msg : TimeMsg) (app : App) (w : W) :
    Exit L msg w (ntpGetTime L msg (app, w)) := by
  unfold ntpGetTime
  dsimp only
  split
  · rename_i w₁ hnew
    exact .noPcb _ hnew
  · rename_i pcb w₁ hnew
    split
    · rename_i w₂ halloc
      exact .noPbuf _ hnew halloc
    · rename_i p w₂ halloc
      split
      · rename_i hfailed
        exact .sendFailed _ hnew halloc rfl hfailed
      · rename_i hok
        exact .sent hnew halloc (Prod.ext (not_not.mp hok) rfl) rfl

/-! ### The scripted lwIP -/

theorem scripted_listed : scripted.Listed (fun _ => True) QueryEnv.polls where
  poll app env _ := by
    have step : ∀ (cbs : List Callback) (s : App × QueryEnv),
        cbs.foldl (fun s cb => dispatch scripted cb s) s = (runPoll cbs s.1, s.2) := by
      intro cbs
      induction cbs with
      | nil => intro s; rfl
      | cons cb cbs ih =>
        intro s
        have henv : (dispatch scripted cb s).2 = s.2 := by
          rcases cb with ⟨_ | p, addr, port⟩ | ⟨ip, netmask, gw⟩ <;> rfl
        rw [List.foldl_cons, ih, dispatch_fst, henv]
        rfl
    show ((env.polls.headD []).foldl (fun s cb => dispatch scripted cb s) (app, { env with polls := env.polls.tail })).1 = _ ∧
      True ∧ ((env.polls.headD []).foldl (fun s cb => dispatch scripted cb s)
        (app, { env with polls := env.polls.tail })).2.polls = _
    rw [step]
    exact ⟨rfl, trivial, rfl⟩

/-- The polls that the wait makes of those to come: it stops after the first in which a packet is taken. -/
def pollsMade : Nat → List (List Callback) → List (List Callback)
  | timeout + 1, cbs :: polls => cbs :: if cbs.filterMap Callback.taken = [] then pollsMade timeout polls else []
  | _, _ => []

/-- The polls made in a call under a script. -/
def QueryEnv.made (env : QueryEnv) : List (List Callback) :=
  if env.udpNew ∧ env.pbufAlloc ∧ env.sendto = 0 then pollsMade ntpTimeoutCycles env.polls else []

theorem prefix_pollsMade (timeout : Nat) (polls : List (List Callback)) : pollsMade timeout polls <+: polls := by
  induction timeout generalizing polls with
  | zero => exact List.nil_prefix
  | succ timeout ih =>
    cases polls with
    | nil => exact List.nil_prefix
    | cons cbs polls =>
      rw [pollsMade, List.prefix_cons_inj]
      split
      · exact ih polls
      · exact List.nil_prefix

/-- The loop leaves the polls that it did not make. -/
theorem waitResponse_scripted (timeout : Nat) {app : App} (h : app.ntpResponseReceived = false) (env : QueryEnv) :
    (waitResponse scripted timeout (app, env)).2.polls = env.polls.drop (pollsMade timeout env.polls).length := by
  induction timeout generalizing app env with
  | zero => rfl
  | succ timeout ih =>
    obtain ⟨happ, -, htail⟩ := scripted_listed.poll app env trivial
    have hpoll := congrArg Prod.fst (runPoll_reply (env.polls.headD []) app)
    rw [← happ] at hpoll
    rw [waitResponse, if_neg (by simp [h])]
    generalize lwipPeriodicHandle scripted (app, env) = next at happ htail hpoll ⊢
    obtain ⟨app', env'⟩ := next
    cases hpolls : env.polls with
    | nil =>
      rw [hpolls] at hpoll htail
      rw [ih (by simpa [h] using hpoll), htail, List.tail_nil, List.drop_nil, List.drop_nil]
    | cons cbs polls =>
      rw [hpolls] at hpoll htail
      rw [List.headD_cons] at hpoll
      rw [List.tail_cons] at htail
      rw [pollsMade]
      by_cases htaken : cbs.filterMap Callback.taken = []
      · rw [if_pos htaken, ih (by simpa [htaken, h] using hpoll), htail]
        rfl
      · have hreceived : app'.ntpResponseReceived = true := by
          rw [List.getLast?_eq_some_getLast htaken] at hpoll
          exact hpoll
        rw [if_neg htaken]
        cases timeout with
        | zero => exact htail
        | succ timeout =>
          rw [waitResponse, if_pos hreceived]
          exact htail

/-- What is left of the script after a call: the polls that it did not make. -/
theorem ntpGetTime_made (msg : TimeMsg) (app : App) (env : QueryEnv) :
    (ntpGetTime scripted msg (app, env)).2.2.2.polls = env.polls.drop env.made.length := by
  unfold ntpGetTime QueryEnv.made
  cases hnew : env.udpNew with
  | false => simp [scripted, hnew]
  | true =>
    cases halloc : env.pbufAlloc with
    | false => simp [scripted, hnew, halloc]
    | true =>
      by_cases hsend : env.sendto = 0
      · simp only [scripted, hnew, halloc, hsend, if_true, ne_eq, not_true_eq_false, if_false, and_self]
        rw [awaitReply_world]
        exact waitResponse_scripted ntpTimeoutCycles rfl env
      · simp [scripted, hnew, halloc, hsend]

/-- The packet that decides a call under a script: none when an allocation or the send fails. -/
def QueryEnv.answer (env : QueryEnv) : Option Pbuf :=
  if env.udpNew ∧ env.pbufAlloc ∧ env.sendto = 0 then SpeakingClock.answer ntpTimeoutCycles env.polls else none

/-- **What `ntp_get_time` returns.** With an answer, 0 and the time of its timestamp; without one, -1
    and `*msg` as it was. -/
theorem ntpGetTime_scripted (msg : TimeMsg) (app : App) (env : QueryEnv) :
    ((ntpGetTime scripted msg (app, env)).1, (ntpGetTime scripted msg (app, env)).2.1) =
      match env.answer with
      | some p => (0, istOfTimestamp p.timestamp)
      | none => (-1, msg) := by
  have given : ∀ {b : Bool} {r : Option Nat} {w : QueryEnv},
      ((if b then some 0 else none, env) : Option Nat × QueryEnv) = (r, w) → b = r.isSome ∧ env = w := by
    intro b r w h
    obtain ⟨rfl, rfl⟩ := Prod.mk.inj h
    cases b <;> exact ⟨rfl, rfl⟩
  have hexit := ntpGetTime_exit scripted msg app env
  unfold QueryEnv.answer
  generalize ntpGetTime scripted msg (app, env) = r at hexit ⊢
  cases hexit with
  | noPcb _ new =>
    have hnew : env.udpNew = false := (given new).1
    simp [hnew]
  | noPbuf _ new alloc =>
    obtain ⟨-, rfl⟩ := given new
    have halloc : env.pbufAlloc = false := (given alloc).1
    simp [halloc]
  | sendFailed _ new alloc send failed =>
    obtain ⟨-, rfl⟩ := given new
    obtain ⟨-, rfl⟩ := given alloc
    have hsend : env.sendto ≠ 0 := by
      obtain ⟨rfl, -⟩ := Prod.mk.inj send
      exact failed
    simp [hsend]
  | sent new alloc send reset =>
    obtain ⟨hnew, rfl⟩ := given new
    obtain ⟨halloc, rfl⟩ := given alloc
    obtain ⟨hsend, rfl⟩ := Prod.mk.inj send
    have hsent : env.udpNew = true ∧ env.pbufAlloc = true ∧ env.sendto = 0 := ⟨hnew, halloc, hsend⟩
    rw [if_pos hsent]
    exact scripted_listed.awaitReply _ msg trivial reset

end SpeakingClock
