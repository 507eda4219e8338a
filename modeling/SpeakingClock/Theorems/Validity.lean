import SpeakingClock.Theorems.Requests

/-! Which datagrams can become an announcement. `ntp_recv_callback` looks only at the length of a
    datagram; in runs where every datagram long enough is a valid reply of a server, everything sent to
    `time_queue` comes from such a reply. A kiss-o'-death packet is announced like any other
    (`kissODeath_announced`). -/

namespace SpeakingClock
open Run

/-- A reply that says the time: from a server (mode 4), which is synchronised (leap indicator not 3),
    is no kiss-o'-death (stratum not 0), and carries a transmit timestamp. -/
structure ValidReply (p : Pbuf) : Prop where
  length : ntpPacketSize ≤ p.totLen
  mode : p.payload.getD 0 0 &&& 7 = 4
  leap : p.payload.getD 0 0 >>> 6 ≠ 3
  stratum : p.payload.getD 1 0 ≠ 0
  transmit : p.timestamp ≠ 0

instance (p : Pbuf) : Decidable (ValidReply p) :=
  decidable_of_iff (ntpPacketSize ≤ p.totLen ∧ p.payload.getD 0 0 &&& 7 = 4 ∧ p.payload.getD 0 0 >>> 6 ≠ 3 ∧
      p.payload.getD 1 0 ≠ 0 ∧ p.timestamp ≠ 0)
    ⟨fun ⟨h1, h2, h3, h4, h5⟩ => ⟨h1, h2, h3, h4, h5⟩, fun ⟨h1, h2, h3, h4, h5⟩ => ⟨h1, h2, h3, h4, h5⟩⟩

/-- The packet reaches the callback in a poll of the call. -/
def QueryEnv.Delivers (env : QueryEnv) (p : Pbuf) : Prop :=
  ∃ cbs ∈ env.made, ∃ addr port, Callback.recv (some p) addr port ∈ cbs

def Action.query? : Action → Option QueryEnv
  | .ntpQuery env => some env
  | _ => none

/-- Every datagram of 48 bytes or more that a call gets is a valid reply. -/
def QueryEnv.OnlyReplies (env : QueryEnv) : Prop := ∀ cbs ∈ env.made, ∀ cb ∈ cbs, ∀ p ∈ cb.taken, ValidReply p

/-- A query only with valid replies, or any other step. -/
def OnlyReplies (_ : State) (a : Action) : Prop := ∀ env ∈ a.query?, env.OnlyReplies

instance (env : QueryEnv) : Decidable env.OnlyReplies := inferInstanceAs (Decidable (∀ _ ∈ _, ∀ _ ∈ _, ∀ _ ∈ _, _))

instance (s : State) (a : Action) : Decidable (OnlyReplies s a) := inferInstanceAs (Decidable (∀ _ ∈ _, _))

section
variable {s t : State}

theorem taken_eq_some {cb : Callback} {p : Pbuf} (h : cb.taken = some p) :
    ntpPacketSize ≤ p.totLen ∧ ∃ addr port, cb = .recv (some p) addr port := by
  rcases cb with ⟨_ | q, addr, port⟩ | ⟨ip, netmask, gw⟩
  · cases h
  · simp only [Callback.taken] at h
    split at h
    · rename_i hlen
      cases h
      exact ⟨hlen, addr, port, rfl⟩
    · cases h
  · cases h

theorem answer_mem {timeout : Nat} {polls : List (List Callback)} {p : Pbuf} (h : answer timeout polls = some p) :
    ∃ cbs ∈ pollsMade timeout polls, ∃ cb ∈ cbs, cb.taken = some p := by
  induction timeout generalizing polls with
  | zero => cases h
  | succ timeout ih =>
    cases polls with
    | nil =>
      obtain ⟨cbs, hcbs, -⟩ := @ih [] h
      cases timeout <;> cases hcbs
    | cons cbs polls =>
      simp only [answer, List.headD_cons, List.tail_cons] at h
      rw [pollsMade]
      split at h
      · rename_i q hq
        cases h
        obtain ⟨cb, hcb, htaken⟩ := List.mem_filterMap.mp (List.mem_of_getLast? hq)
        exact ⟨cbs, List.mem_cons_self, cb, hcb, htaken⟩
      · rename_i hnone
        obtain ⟨cbs', hcbs', hex⟩ := ih h
        rw [if_pos (List.getLast?_eq_none_iff.mp hnone)]
        exact ⟨cbs', List.mem_cons_of_mem _ hcbs', hex⟩

theorem QueryEnv.delivers_of_answer {env : QueryEnv} {p : Pbuf} (h : env.answer = some p) :
    env.Delivers p ∧ (env.OnlyReplies → ValidReply p) := by
  unfold QueryEnv.answer at h
  split at h
  · rename_i hsent
    obtain ⟨cbs, hcbs, cb, hcb, htaken⟩ := answer_mem h
    have hcbs : cbs ∈ env.made := by rwa [QueryEnv.made, if_pos hsent]
    refine ⟨?_, fun honly => honly cbs hcbs cb hcb p htaken⟩
    obtain ⟨-, addr, port, rfl⟩ := taken_eq_some htaken
    exact ⟨cbs, hcbs, addr, port, hcb⟩
  · cases h

/-- Under `OnlyReplies`, a datagram that is no valid reply is too short to be taken. -/
theorem QueryEnv.OnlyReplies.short {env : QueryEnv} (h : env.OnlyReplies) {p : Pbuf} (hdel : env.Delivers p)
    (hinvalid : ¬ValidReply p) (addr : Ip4) (port : UInt16) : (Callback.recv (some p) addr port).taken = none := by
  obtain ⟨cbs, hcbs, addr', port', hcb⟩ := hdel
  have hshort : ¬p.totLen ≥ ntpPacketSize := fun hlen =>
    hinvalid (h cbs hcbs _ hcb p (by simp [Callback.taken, hlen]))
  simp [Callback.taken, hshort]

/-- The last query in the history returned `m`, from the timestamp of a valid reply it was delivered. -/
def Backed (h : List Event) (m : TimeMsg) : Prop :=
  ∃ a b env p, h = a ++ .queried env (some m) :: b ∧ (∀ env' r, .queried env' r ∉ b) ∧
    env.answer = some p ∧ env.Delivers p ∧ ValidReply p ∧ m = istOfTimestamp p.timestamp

theorem Backed.append {h es : List Event} {m : TimeMsg} (hb : Backed h m) (hes : ∀ env r, .queried env r ∉ es) :
    Backed (h ++ es) m := by
  obtain ⟨a, b, env, p, rfl, hnot, hrest⟩ := hb
  exact ⟨a, b ++ es, env, p, by simp, fun env' r => by simp [hnot, hes], hrest⟩

/-- Everything sent, and what `ntp_task` is about to send, comes from a valid reply. -/
structure Validated (s : State) : Prop where
  sends : ∀ a b m, s.history = a ++ .sent m :: b → Backed a m
  sending : ∀ r, s.ntp.pc = .send r → Backed s.history s.ntp.msg
  queries : ∀ env r, .queried env r ∈ s.history →
    env.OnlyReplies ∧ r = env.answer.map fun p => istOfTimestamp p.timestamp

theorem Validated.quiet (h : Validated s) {es : List Event} (hhist : t.history = s.history ++ es)
    (hsent : ∀ m, .sent m ∉ es) (hquery : ∀ env r, .queried env r ∉ es)
    (hpc : ∀ r, t.ntp.pc = .send r → s.ntp.pc = .send r ∧ t.ntp.msg = s.ntp.msg) : Validated t where
  sends a b m heq := by
    obtain ⟨b', hb', -⟩ := split_of_not_mem (hsent m) (hhist ▸ heq)
    exact h.sends a b' m hb'
  sending r hr := by
    obtain ⟨hs, hmsg⟩ := hpc r hr
    rw [hhist, hmsg]
    exact (h.sending r hs).append hquery
  queries env r hm := by
    rw [hhist] at hm
    rcases List.mem_append.mp hm with hm | hm
    · exact h.queries env r hm
    · exact absurd hm (hquery env r)

theorem loopEnd_no_message (retries : Nat) :
    (∀ m, .sent m ∉ loopEnd retries) ∧ ∀ env r, .queried env r ∉ loopEnd retries := by
  unfold loopEnd
  split <;> simp

/-- A query that allows no send, and the end of its round if it is the last. -/
theorem Validated.unanswered (h : Validated s) {env : QueryEnv} {es : List Event} (hok : env.OnlyReplies)
    (hans : env.answer = none) (hhist : t.history = s.history ++ .queried env none :: es) (hsent : ∀ m, .sent m ∉ es)
    (hquery : ∀ env r, .queried env r ∉ es) (hpc : ∀ r, t.ntp.pc ≠ .send r) : Validated t where
  sends a b m heq := by
    obtain ⟨b', hb', -⟩ := split_of_not_mem (by simp [hsent m]) (hhist ▸ heq)
    exact h.sends a b' m hb'
  sending r hr := absurd hr (hpc r)
  queries env' r hm := by
    rw [hhist] at hm
    rcases List.mem_append.mp hm with hm | hm
    · exact h.queries env' r hm
    · rcases List.mem_cons.mp hm with heq | hm
      · cases heq
        exact ⟨hok, by rw [hans]; rfl⟩
      · exact absurd hm (hquery env' r)

theorem Validated.step {a : Action} (h : Validated s) (hok : OnlyReplies s a) (hstep : Step s a t) : Validated t := by
  cases hstep with
  | keyPutc | ntpPutc | speechPutc | keyIgnore | keyWake | close =>
    exact h.quiet (List.append_nil _).symm (by simp) (by simp) fun r hr => ⟨hr, rfl⟩
  | keyAccept | keyGive | receive | done => exact h.quiet rfl (by simp) (by simp) fun r hr => ⟨hr, rfl⟩
  | @ntpMove a pc' app' move =>
    refine h.quiet (List.append_nil _).symm (by simp) (by simp) fun r hr => ?_
    generalize s.ntp.pc = pc at move
    cases move <;> cases hr
  | ntpTake => exact h.quiet rfl (by simp) (by simp) (by simp)
  | retry pc out answer => exact h.unanswered (hok _ rfl) answer rfl (by simp) (by simp) (by simp)
  | giveUp pc last out answer =>
    obtain ⟨hsent, hquery⟩ := loopEnd_no_message 0
    exact h.unanswered (hok _ rfl) answer rfl hsent hquery (by simp)
  | @answered retries env p app' pc out answer =>
    obtain ⟨hdel, hvalid⟩ := QueryEnv.delivers_of_answer answer
    exact {
      sends := fun a b m heq => by
        obtain ⟨b', hb', -⟩ := split_of_not_mem (by simp) heq
        exact h.sends a b' m hb'
      sending := fun r hr =>
        ⟨s.history, [], env, p, rfl, by simp, answer, hdel, hvalid (hok env rfl), rfl⟩
      queries := fun env' r hm => by
        rcases List.mem_append.mp hm with hm | hm
        · exact h.queries env' r hm
        · cases List.mem_singleton.mp hm
          exact ⟨hok _ rfl, by rw [answer]; rfl⟩ }
  | @ntpSend retries app' pc =>
    obtain ⟨hsent, hquery⟩ := loopEnd_no_message retries
    exact {
      sends := fun a b m heq => by
        rw [List.append_cons] at heq
        obtain ⟨b', hb', -⟩ := split_of_not_mem (hsent m) heq
        -- The message just sent, or one before it.
        rcases List.eq_nil_or_concat b' with rfl | ⟨b', x, rfl⟩
        · obtain ⟨rfl, hm⟩ := List.append_inj' hb' rfl
          cases hm
          exact h.sending retries pc
        · rw [List.concat_eq_append, ← List.cons_append, ← List.append_assoc] at hb'
          obtain ⟨hs, -⟩ := List.append_inj' hb' rfl
          exact h.sends a b' m hs
      sending := by simp
      queries := fun env r hm => by
        simp only [List.mem_append, List.mem_cons, reduceCtorEq, hquery env r, or_false] at hm
        exact h.queries env r hm }
  | @ntpSendTimeout retries =>
    obtain ⟨hsent, hquery⟩ := loopEnd_no_message retries
    exact h.quiet rfl (by simp [hsent]) (by simp [hquery]) (by simp)

theorem validated_init (hw : HwInit) (msg : TimeMsg) : Validated (State.init hw msg) where
  sends a b m heq := by simp [State.init] at heq
  sending r hr := by cases hr
  queries env r hm := by simp [State.init] at hm

/-- **Only valid replies are announced, if only valid replies are long enough.** In every run whose
    queries get no other datagram of 48 bytes or more, each message sent to `time_queue` is the result
    of the query before it, from a valid reply that this query was delivered; every other datagram
    leaves the reply state as it was; and a query without a valid reply fails. -/
theorem sent_from_validReply {hw : HwInit} {msg : TimeMsg} (h : Reaches step OnlyReplies (State.init hw msg) s) :
    (∀ a b m, s.history = a ++ .sent m :: b → Backed a m) ∧
    (∀ env r, .queried env r ∈ s.history → ∀ p, env.Delivers p → ¬ValidReply p → ∀ addr port app,
      ((Callback.recv (some p) addr port).run app).ntpResponseReceived = app.ntpResponseReceived ∧
      ((Callback.recv (some p) addr port).run app).ntpTimestamp = app.ntpTimestamp) ∧
    ∀ env r, .queried env r ∈ s.history → (∀ p, env.Delivers p → ¬ValidReply p) → r = none := by
  have inv : Validated s :=
    h.invariant (validated_init hw msg) fun _ _ _ _ hs hok hstep => hs.step hok (step_inv hstep)
  refine ⟨inv.sends, fun env r hm p hdel hinvalid addr port app => ?_, fun env r hm hnone => ?_⟩
  · exact Callback.run_of_not_taken ((inv.queries env r hm).1.short hdel hinvalid addr port) app
  · obtain ⟨honly, hr⟩ := inv.queries env r hm
    cases hans : env.answer with
    | none => rw [hr, hans, Option.map_none]
    | some p =>
      obtain ⟨hdel, hvalid⟩ := QueryEnv.delivers_of_answer hans
      exact absurd (hvalid honly) (hnone p hdel)

end

theorem steady_onlyReplies : Steady OnlyReplies := fun _ _ _ _ _ h => h

theorem runSchedule_onlyReplies :
    (runSchedule OnlyReplies (State.init qemuHw ⟨0, 0, 0⟩) (firstRequest (serverReply 0xEC 0 0 0))).map
      (fun s => s.history) = some firstEvents := by decide +kernel

/-- The first request, answered by a server: its one message comes from that reply. -/
theorem sent_from_validReply_first :
    ∃ s, Reaches step OnlyReplies (State.init qemuHw ⟨0, 0, 0⟩) s ∧ s.history = firstEvents ∧
      Backed (firstEvents.take 4) ⟨21, 12, 56⟩ := by
  obtain ⟨s, hrun, hhist⟩ := Option.map_eq_some_iff.mp runSchedule_onlyReplies
  have hreach := reaches_of_runSchedule steady_onlyReplies hrun
  exact ⟨s, hreach, hhist, (sent_from_validReply hreach).1 _ _ _ (hhist.trans rfl)⟩

/-- A kiss-o'-death packet: leap indicator 3, stratum 0, and the code RATE. -/
def kissODeath : Callback :=
  .recv (some ⟨0, [[0xE4, 0] ++ List.replicate 10 0 ++ cstr "RATE" ++ List.replicate 24 0 ++ [0xEC, 0, 0, 0] ++
    List.replicate 4 0]⟩) serverAddr ntpPort

theorem runSchedule_kissODeath :
    (runSchedule Scheduled (State.init qemuHw ⟨0, 0, 0⟩) (firstRequest kissODeath)).map (fun s => s.history) =
      some [.accepted, .gave, .took, .queried ⟨true, true, 0, [[kissODeath]]⟩ (some ⟨21, 12, 56⟩),
        .sent ⟨21, 12, 56⟩, .roundDone, .received ⟨21, 12, 56⟩] := by decide +kernel

/-- The scheduler allows a run in which a message is sent though no query got a valid reply. -/
theorem kissODeath_announced :
    ∃ s, Reaches step Scheduled (State.init qemuHw ⟨0, 0, 0⟩) s ∧ .sent ⟨21, 12, 56⟩ ∈ s.history ∧
      ∀ env r, .queried env r ∈ s.history → ∀ p, env.Delivers p → ¬ValidReply p := by
  obtain ⟨s, hrun, hhist⟩ := Option.map_eq_some_iff.mp runSchedule_kissODeath
  refine ⟨s, reaches_of_runSchedule steady_scheduled hrun, by rw [hhist]; simp, fun env r hm p hdel => ?_⟩
  rw [hhist] at hm
  simp only [List.mem_cons, reduceCtorEq, Event.queried.injEq, List.not_mem_nil, or_false, false_or] at hm
  obtain ⟨rfl, -⟩ := hm
  obtain ⟨cbs, hcbs, addr, port, hcb⟩ := hdel
  have hpolls := (prefix_pollsMade ntpTimeoutCycles [[kissODeath]]).subset hcbs
  rw [List.mem_singleton.mp hpolls, List.mem_singleton] at hcb
  simp only [kissODeath, Callback.recv.injEq, Option.some.injEq] at hcb
  rw [hcb.1]
  decide

end SpeakingClock
