import SpeakingClock.Theorems.Query

/-! Who can set the time. `ntp_recv_callback` does not look at the source of a packet, so whenever the
    request was sent, a host other than the server decides the outcome of the call by one packet in the
    first poll (`outcome_fixed_iff`). Packets too short to be taken change nothing. -/

namespace SpeakingClock

/-- The call delivers a datagram from another source than the one the request was sent to. -/
def Callback.isForeign : Callback → Bool
  | .recv _ addr port => !(addr == serverAddr && port == ntpPort)
  | .status .. => false

def genuine (cbs : List Callback) : List Callback := cbs.filter fun cb => !cb.isForeign

/-- Two scripts with the same results of the allocations and of the send, and with the same datagrams
    of the server at each poll. -/
structure QueryEnv.Agrees (env env' : QueryEnv) : Prop where
  udpNew : env'.udpNew = env.udpNew
  pbufAlloc : env'.pbufAlloc = env.pbufAlloc
  sendto : env'.sendto = env.sendto
  polls : ∀ k, genuine (env'.polls.getD k []) = genuine (env.polls.getD k [])

def QueryEnv.outcome (env : QueryEnv) (msg : TimeMsg) (app : App) : Int × TimeMsg :=
  ((ntpGetTime scripted msg (app, env)).1, (ntpGetTime scripted msg (app, env)).2.1)

/-- The request went out: both allocations and the send succeeded. -/
def QueryEnv.Sent (env : QueryEnv) : Prop := env.udpNew ∧ env.pbufAlloc ∧ env.sendto = 0

instance (env : QueryEnv) : Decidable env.Sent := inferInstanceAs (Decidable (_ ∧ _ ∧ _))

/-- A packet of another host, whose transmit timestamp is `t` seconds. -/
def forged (t : UInt8) : Callback :=
  .recv (some ⟨0, [List.replicate 43 0 ++ [t] ++ List.replicate 4 0]⟩) ⟨10, 0, 2, 2⟩ 4000

/-- The script with a forged packet after all others of its first poll. -/
def QueryEnv.forge (env : QueryEnv) (t : UInt8) : QueryEnv :=
  { env with polls := (env.polls.headD [] ++ [forged t]) :: env.polls.tail }

theorem genuine_snoc_forged (cbs : List Callback) (t : UInt8) : genuine (cbs ++ [forged t]) = genuine cbs := by
  have hf : (forged t).isForeign = true := rfl
  simp [genuine, List.filter_append, hf]

theorem agrees_forge (env : QueryEnv) (t : UInt8) : env.Agrees (env.forge t) where
  udpNew := rfl
  pbufAlloc := rfl
  sendto := rfl
  polls k := by
    cases k with
    | zero =>
      show genuine (env.polls.headD [] ++ [forged t]) = _
      rw [genuine_snoc_forged]
      cases env.polls <;> rfl
    | succ k =>
      show genuine (env.polls.tail.getD k []) = _
      cases env.polls <;> rfl

theorem outcome_eq (env : QueryEnv) (msg : TimeMsg) (app : App) :
    env.outcome msg app =
      match env.answer with
      | some p => (0, istOfTimestamp p.timestamp)
      | none => (-1, msg) :=
  ntpGetTime_scripted msg app env

/-- A forged packet decides a call that sent its request. -/
theorem outcome_forge {env : QueryEnv} (sent : env.Sent) (t : UInt8) (msg : TimeMsg) (app : App) :
    ∃ p, (forged t).taken = some p ∧ (env.forge t).outcome msg app = (0, istOfTimestamp p.timestamp) := by
  obtain ⟨p, hp⟩ : ∃ p, (forged t).taken = some p := ⟨_, rfl⟩
  have hlast : (((env.forge t).polls.headD []).filterMap Callback.taken).getLast? = some p := by
    show ((env.polls.headD [] ++ [forged t]).filterMap Callback.taken).getLast? = some p
    simp [List.filterMap_append, hp]
  have hans : (env.forge t).answer = some p := by
    have sent' : (env.forge t).udpNew ∧ (env.forge t).pbufAlloc ∧ (env.forge t).sendto = 0 := sent
    rw [QueryEnv.answer, if_pos sent', ntpTimeoutCycles, answer, hlast]
  exact ⟨p, hp, by rw [outcome_eq, hans]⟩

theorem answer_of_not_sent {env : QueryEnv} (h : ¬env.Sent) : env.answer = none := if_neg h

/-- **Who can set the time.** The outcome of a call is fixed by the datagrams of the server exactly when
    the request was never sent. Two scripts whose other datagrams are all too short to be taken do have
    the same outcome. -/
theorem outcome_fixed_iff (env : QueryEnv) (msg : TimeMsg) (app : App) :
    ((∀ env', env.Agrees env' → env'.outcome msg app = env.outcome msg app) ↔ ¬env.Sent) ∧
    ∀ env', env.Agrees env' →
      (∀ e ∈ [env, env'], ∀ cbs ∈ e.polls, ∀ cb ∈ cbs, cb.isForeign → cb.taken = none) →
        env'.outcome msg app = env.outcome msg app := by
  refine ⟨⟨fun h sent => ?_, fun h env' agree => ?_⟩, fun env' agree short => ?_⟩
  · obtain ⟨p, hp, h0⟩ := outcome_forge sent 0 msg app
    obtain ⟨q, hq, h1⟩ := outcome_forge sent 1 msg app
    have heq := (h _ (agrees_forge env 0)).trans (h _ (agrees_forge env 1)).symm
    rw [h0, h1, Prod.mk.injEq] at heq
    cases hp
    cases hq
    exact absurd heq.2 (by decide)
  · have h' : ¬env'.Sent := by rwa [QueryEnv.Sent, agree.udpNew, agree.pbufAlloc, agree.sendto]
    rw [outcome_eq, outcome_eq, answer_of_not_sent h, answer_of_not_sent h']
  · -- Every packet taken comes from the server, so both scripts take the same packets.
    have taken : ∀ e ∈ [env, env'], ∀ k, (e.polls.getD k []).filterMap Callback.taken =
        (genuine (e.polls.getD k [])).filterMap Callback.taken := by
      intro e he k
      rw [genuine, List.filterMap_filter]
      refine List.filterMap_congr fun cb hcb => ?_
      cases hf : cb.isForeign with
      | false => rfl
      | true =>
        rw [List.getD_eq_getElem?_getD] at hcb
        cases hk : e.polls[k]? with
        | none => rw [hk] at hcb; cases hcb
        | some cbs =>
          rw [hk] at hcb
          simp [short e he cbs (List.mem_of_getElem? hk) cb hcb hf]
    have hans : answer ntpTimeoutCycles env'.polls = answer ntpTimeoutCycles env.polls :=
      answer_congr fun k _ => by rw [taken env' (by simp), taken env (by simp), agree.polls k]
    rw [outcome_eq, outcome_eq, QueryEnv.answer, QueryEnv.answer, agree.udpNew, agree.pbufAlloc, agree.sendto, hans]

/-- A reply of the server, and a packet of another host after it in the same poll: the same datagrams
    of the server, another time. -/
theorem outcome_not_fixed :
    let env : QueryEnv := ⟨true, true, 0, [[.recv (some ⟨0, [List.replicate 48 36]⟩) serverAddr ntpPort]]⟩
    env.Agrees (env.forge 0) ∧
      env.outcome ⟨0, 0, 0⟩ ⟨false, 0, true, []⟩ = (0, ⟨10, 3, 40⟩) ∧
      (env.forge 0).outcome ⟨0, 0, 0⟩ ⟨false, 0, true, []⟩ = (0, ⟨11, 58, 16⟩) :=
  ⟨agrees_forge _ 0, by decide, by decide⟩

end SpeakingClock
