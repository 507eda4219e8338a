import SpeakingClock.Ports
import SpeakingClock.Theorems.Query

/-! Late replies do not leak into later queries. Between calls no PCB is registered, and during a call
    only the one of that call is, so a call's result is a function of the datagrams addressed to its own
    port and delivered during its own polls. -/

namespace SpeakingClock

variable {newPort : Nat → UInt16}

/-! ### One call -/

/-- The callbacks of a poll for a PCB on this port. -/
def ownCallbacks (dest : UInt16) (poll : List Delivery) : List Callback :=
  poll.filterMap fun
    | .datagram dest' p addr port => if dest' = dest then some (.recv p addr port) else none
    | .status ip netmask gw => some (.status ip netmask gw)

/-- The script as the PCB of the call sees it. -/
def CallScript.own (script : CallScript) (dest : UInt16) : QueryEnv :=
  ⟨script.udpNew, script.pbufAlloc, script.sendto, script.polls.map (ownCallbacks dest)⟩

/-- What a call returns, and `*msg` after it, by the packet that decides it. -/
def QueryEnv.result (env : QueryEnv) (msg : TimeMsg) : Int × TimeMsg :=
  match env.answer with
  | some p => (0, istOfTimestamp p.timestamp)
  | none => (-1, msg)

/-- The only PCB is the one of the call, bound to `dest`. -/
def Ports.Own (w : Ports) (id : Nat) (dest : UInt16) : Prop := w.pcbs = [⟨id, some dest, true⟩]

section
variable {w : Ports} {id : Nat} {dest : UInt16}

theorem Ports.Own.callback (h : w.Own id dest) (d : Delivery) :
    w.callback d = match d with
      | .datagram dest' p addr port => if dest' = dest then some (.recv p addr port) else none
      | .status ip netmask gw => some (.status ip netmask gw) := by
  have hpcbs : w.pcbs = [⟨id, some dest, true⟩] := h
  cases d with
  | datagram dest' p addr port =>
    by_cases hd : dest' = dest
    · simp [Ports.callback, Ports.listens, hpcbs, hd]
    · simp [Ports.callback, Ports.listens, hpcbs, hd, Ne.symm hd]
  | status ip netmask gw => rfl

theorem dispatch_portLwip (cb : Callback) (s : App × Ports) :
    dispatch (portLwip newPort) cb s = (cb.run s.1, s.2) := by
  rcases cb with ⟨_ | p, addr, port⟩ | ⟨ip, netmask, gw⟩ <;> rfl

theorem foldl_deliver {f : Delivery → Option Callback} (hf : ∀ d, w.callback d = f d) (ds : List Delivery) (app : App) :
    ds.foldl (fun s d => match s.2.callback d with | some cb => dispatch (portLwip newPort) cb s | none => s) (app, w) =
      (runPoll (ds.filterMap f) app, w) := by
  induction ds generalizing app with
  | nil => rfl
  | cons d ds ih =>
    rw [List.foldl_cons]
    simp only [hf]
    cases hd : f d with
    | none => rw [List.filterMap_cons_none hd, ih]
    | some cb =>
      rw [List.filterMap_cons_some hd]
      exact (congrArg (ds.foldl _) (dispatch_portLwip cb (app, w))).trans (ih _)

theorem portLwip_listed (id : Nat) (dest : UInt16) (binds : Nat) :
    (portLwip newPort).Listed (fun w => w.Own id dest ∧ w.binds = binds)
      fun w => w.script.polls.map (ownCallbacks dest) where
  poll app w hw := by
    have hown : Ports.Own { w with script := { w.script with polls := w.script.polls.tail } } id dest := hw.1
    have hstep : lwipPeriodicHandle (portLwip newPort) (app, w) =
        (runPoll (ownCallbacks dest (w.script.polls.headD [])) app,
          { w with script := { w.script with polls := w.script.polls.tail } }) :=
      foldl_deliver hown.callback (w.script.polls.headD []) app
    rw [hstep]
    refine ⟨?_, hw, List.map_tail⟩
    cases w.script.polls <;> rfl

theorem portLwip_noPcb {w w₁ : Ports} (h : (portLwip newPort).udpNew w = (none, w₁)) :
    w.script.udpNew = false ∧ w₁ = w := by
  simp only [portLwip] at h
  split at h
  · cases h
  · rename_i hnew
    cases h
    exact ⟨by simpa using hnew, rfl⟩

/-- A new PCB after its bind and with the callback registered. -/
theorem portLwip_bound {w w₁ : Ports} {pcb : Nat} (hw : w.pcbs = []) (h : (portLwip newPort).udpNew w = (some pcb, w₁)) :
    w.script.udpNew = true ∧ pcb = w.nextId ∧ (portLwip newPort).udpRecv pcb ((portLwip newPort).udpBind pcb w₁) =
      ⟨w.nextId + 1, [⟨w.nextId, some (newPort w.binds), true⟩], w.binds + 1, w.script⟩ := by
  simp only [portLwip] at h
  split at h
  · rename_i hnew
    cases h
    exact ⟨hnew, rfl, by simp [portLwip, Ports.modify, hw]⟩
  · cases h

theorem portLwip_alloc {w w₁ : Ports} {r : Option Nat} (h : (portLwip newPort).pbufAlloc w = (r, w₁)) :
    w.script.pbufAlloc = r.isSome ∧ w₁ = w := by
  obtain ⟨rfl, rfl⟩ := Prod.mk.inj h
  cases w.script.pbufAlloc <;> exact ⟨rfl, rfl⟩

theorem Ports.Own.removed {w : Ports} {id : Nat} {dest : UInt16} (h : w.Own id dest) :
    ((portLwip newPort).udpRemove id w).pcbs = [] := by
  have hpcbs : w.pcbs = [⟨id, some dest, true⟩] := h
  simp [portLwip, hpcbs]

/-- **One call.** Its result is a function of the datagrams of its own port, and it leaves no PCB. -/
theorem ntpGetTime_portLwip (msg : TimeMsg) (app : App) {w : Ports} (hw : w.pcbs = []) :
    ((ntpGetTime (portLwip newPort) msg (app, w)).1, (ntpGetTime (portLwip newPort) msg (app, w)).2.1) =
        (w.script.own (newPort w.binds)).result msg ∧
      (ntpGetTime (portLwip newPort) msg (app, w)).2.2.2.pcbs = [] ∧
      (ntpGetTime (portLwip newPort) msg (app, w)).2.2.2.binds = w.binds + w.script.udpNew.toNat := by
  have hexit := ntpGetTime_exit (portLwip newPort) msg app w
  unfold QueryEnv.result QueryEnv.answer CallScript.own
  generalize ntpGetTime (portLwip newPort) msg (app, w) = r at hexit ⊢
  cases hexit with
  | noPcb _ new =>
    obtain ⟨hnew, rfl⟩ := portLwip_noPcb new
    rw [hnew]
    exact ⟨by simp, hw, rfl⟩
  | noPbuf _ new alloc =>
    obtain ⟨hnew, rfl, hbound⟩ := portLwip_bound hw new
    rw [hbound] at alloc
    obtain ⟨halloc, rfl⟩ := portLwip_alloc alloc
    have halloc : w.script.pbufAlloc = false := halloc
    rw [hnew, halloc]
    exact ⟨by simp, by simp [portLwip], rfl⟩
  | sendFailed _ new alloc send failed =>
    obtain ⟨hnew, rfl, hbound⟩ := portLwip_bound hw new
    rw [hbound] at alloc
    obtain ⟨-, rfl⟩ := portLwip_alloc alloc
    obtain ⟨rfl, rfl⟩ := Prod.mk.inj send
    have failed : w.script.sendto ≠ 0 := failed
    rw [hnew]
    exact ⟨by simp [failed], by simp [portLwip], rfl⟩
  | @sent pcb p w₁ w₂ w₃ app new alloc send reset =>
    obtain ⟨hnew, rfl, hbound⟩ := portLwip_bound hw new
    rw [hbound] at alloc
    obtain ⟨halloc, rfl⟩ := portLwip_alloc alloc
    obtain ⟨hsend, rfl⟩ := Prod.mk.inj send
    have hsent : w.script.udpNew = true ∧ w.script.pbufAlloc = true ∧ w.script.sendto = 0 := ⟨hnew, halloc, hsend⟩
    have own : Ports.Own ⟨w.nextId + 1, [⟨w.nextId, some (newPort w.binds), true⟩], w.binds + 1, w.script⟩ w.nextId
        (newPort w.binds) := rfl
    have listed := @portLwip_listed newPort w.nextId (newPort w.binds) (w.binds + 1)
    obtain ⟨hown, hbinds⟩ := (@Lwip.Listed.waitResponse _ _ _ _ listed ntpTimeoutCycles app _ ⟨own, rfl⟩).2
    refine ⟨?_, ?_, ?_⟩
    · rw [if_pos hsent]
      exact listed.awaitReply w.nextId msg ⟨own, rfl⟩ reset
    · rw [awaitReply_world]
      exact hown.removed
    · rw [awaitReply_world, hnew]
      exact hbinds

end

/-! ### Runs -/

/-- The results of the calls when each sees only the datagrams of its own port, from the `k`-th bind on. -/
def ownResults (newPort : Nat → UInt16) : Nat → TimeMsg → List NetItem → List (Int × TimeMsg)
  | _, _, [] => []
  | k, msg, .call script :: items =>
    let r := (script.own (newPort k)).result msg
    r :: ownResults newPort (k + script.udpNew.toNat) r.2 items
  | k, msg, .idle _ :: items => ownResults newPort k msg items

theorem idle_ports (app : App) {w : Ports} (hw : w.pcbs = []) :
    (lwipPeriodicHandle (portLwip newPort) (app, w)).2.pcbs = [] ∧
      (lwipPeriodicHandle (portLwip newPort) (app, w)).2.binds = w.binds := by
  have hfold := @foldl_deliver newPort { w with script := { w.script with polls := w.script.polls.tail } }
    _ (fun _ => rfl) (w.script.polls.headD []) app
  have hstep : (lwipPeriodicHandle (portLwip newPort) (app, w)).2 =
      { w with script := { w.script with polls := w.script.polls.tail } } := congrArg Prod.snd hfold
  rw [hstep]
  exact ⟨hw, rfl⟩

theorem netResults_eq (items : List NetItem) {s : NetState} (hs : s.ports.pcbs = []) :
    netResults newPort s items = ownResults newPort s.ports.binds s.msg items := by
  induction items generalizing s with
  | nil => rfl
  | cons item items ih =>
    cases item with
    | call script =>
      obtain ⟨hres, hpcbs, hbinds⟩ := @ntpGetTime_portLwip newPort s.msg s.app { s.ports with script := script } hs
      have hmsg := congrArg Prod.snd hres
      dsimp only at hres hbinds hmsg
      rw [netResults, ownResults, hres, ih hpcbs, hbinds, hmsg]
    | idle poll =>
      obtain ⟨hpcbs, hbinds⟩ := @idle_ports newPort s.app { s.ports with script := ⟨true, true, 0, [poll]⟩ } hs
      rw [netResults, ownResults, ih hpcbs, hbinds]

/-- What a poll brings besides datagrams addressed to the ports `late`. -/
def notLate (late : List UInt16) (poll : List Delivery) : List Delivery :=
  poll.filter fun | .datagram dest _ _ _ => dest ∉ late | .status .. => true

/-- The same calls, up to datagrams addressed to the ports of earlier calls and up to what arrives
    outside calls. `k` binds were made, and `late` are the ports of the calls so far. -/
inductive SameButLate (newPort : Nat → UInt16) : Nat → List UInt16 → List NetItem → List NetItem → Prop where
  | nil (k : Nat) (late : List UInt16) : SameButLate newPort k late [] []
  | idle {k : Nat} {late : List UInt16} {items items' : List NetItem} (poll poll' : List Delivery) :
      SameButLate newPort k late items items' →
      SameButLate newPort k late (.idle poll :: items) (.idle poll' :: items')
  | call {k : Nat} {late : List UInt16} {items items' : List NetItem} (script : CallScript)
      (polls' : List (List Delivery)) :
      (∀ n, notLate late (script.polls.getD n []) = notLate late (polls'.getD n [])) →
      SameButLate newPort (k + script.udpNew.toNat) (if script.udpNew then newPort k :: late else late) items items' →
      SameButLate newPort k late (.call script :: items) (.call { script with polls := polls' } :: items')

theorem ownCallbacks_notLate {dest : UInt16} {late : List UInt16} (h : dest ∉ late) (poll : List Delivery) :
    ownCallbacks dest (notLate late poll) = ownCallbacks dest poll := by
  unfold ownCallbacks notLate
  rw [List.filterMap_filter]
  refine List.filterMap_congr fun d _ => ?_
  cases d with
  | status ip netmask gw => simp
  | datagram dest' p addr port =>
    by_cases hd : dest' = dest
    · simp [hd, h]
    · simp [hd]

theorem result_sameButLate {dest : UInt16} {late : List UInt16} (h : dest ∉ late) (script : CallScript)
    {polls' : List (List Delivery)}
    (hpolls : ∀ n, notLate late (script.polls.getD n []) = notLate late (polls'.getD n [])) (msg : TimeMsg) :
    (CallScript.own { script with polls := polls' } dest).result msg = (script.own dest).result msg := by
  have hget : ∀ (ps : List (List Delivery)) (n : Nat), (ps.map (ownCallbacks dest)).getD n [] =
      ownCallbacks dest (ps.getD n []) := fun ps n => by
    rw [List.getD_eq_getElem?_getD, List.getD_eq_getElem?_getD, List.getElem?_map]
    cases ps[n]? <;> rfl
  have hans : answer ntpTimeoutCycles (polls'.map (ownCallbacks dest)) =
      answer ntpTimeoutCycles (script.polls.map (ownCallbacks dest)) :=
    answer_congr fun n _ => by
      rw [hget, hget, ← ownCallbacks_notLate h (polls'.getD n []), ← hpolls n, ownCallbacks_notLate h]
  unfold QueryEnv.result QueryEnv.answer CallScript.own
  rw [hans]

theorem ownResults_sameButLate (fresh : ∀ i j, i < j → j ≤ i + 16383 → newPort i ≠ newPort j) {k k₀ : Nat}
    {late : List UInt16} {items items' : List NetItem} (h : SameButLate newPort k late items items')
    (hstart : k₀ ≤ k) (hlate : ∀ d ∈ late, ∃ j, d = newPort j ∧ k₀ ≤ j ∧ j < k)
    (few : k + netCalls items ≤ k₀ + 16383) (msg : TimeMsg) :
    ownResults newPort k msg items' = ownResults newPort k msg items := by
  induction h generalizing msg with
  | nil => rfl
  | idle poll poll' _ ih => exact ih hstart hlate few msg
  | @call k late items items' script polls' hpolls _ ih =>
    have hcalls : netCalls (.call script :: items) = netCalls items + 1 := by simp [netCalls]
    rw [hcalls] at few
    have hnew : newPort k ∉ late := fun hm => by
      obtain ⟨j, hj, hlo, hhi⟩ := hlate _ hm
      exact fresh j k hhi (by omega) hj.symm
    have hlate' : ∀ d ∈ (if script.udpNew then newPort k :: late else late),
        ∃ j, d = newPort j ∧ k₀ ≤ j ∧ j < k + script.udpNew.toNat := by
      intro d hd
      have older : d ∈ late → ∃ j, d = newPort j ∧ k₀ ≤ j ∧ j < k + script.udpNew.toNat := fun hm => by
        obtain ⟨j, hj, hlo, hhi⟩ := hlate d hm
        exact ⟨j, hj, hlo, by omega⟩
      split at hd
      · rename_i hnew
        rcases List.mem_cons.mp hd with rfl | hd
        · exact ⟨k, rfl, hstart, by simp [hnew]⟩
        · exact older hd
      · exact older hd
    have htail : k + script.udpNew.toNat + netCalls items ≤ k₀ + 16383 := by
      have := Bool.toNat_le script.udpNew
      omega
    rw [ownResults, ownResults, result_sameButLate hnew script hpolls]
    exact congrArg _ (ih (by omega) hlate' htail _)

/-- **Late replies change nothing.** In any run of at most 16383 calls and any polls between them, from a
    state in which the client has no PCB: the result of each call is a function of the datagrams
    addressed to its own port and delivered during its own polls, and runs that differ only in
    datagrams addressed to the ports of earlier calls, or in what arrives outside calls, have the
    same results. -/
theorem late_replies_harmless (newPort : Nat → UInt16)
    (fresh : ∀ i j, i < j → j ≤ i + 16383 → newPort i ≠ newPort j) (s : NetState) (start : s.ports.pcbs = [])
    (items : List NetItem) (few : netCalls items ≤ 16383) :
    netResults newPort s items = ownResults newPort s.ports.binds s.msg items ∧
    ∀ items', SameButLate newPort s.ports.binds [] items items' →
      netResults newPort s items' = netResults newPort s items := by
  refine ⟨netResults_eq items start, fun items' h => ?_⟩
  rw [netResults_eq items start, netResults_eq items' start]
  exact ownResults_sameButLate fresh h s.ports.binds.le_refl (by simp) (by omega) s.msg

/-- `udp_new_port`, when no other PCB is in its way. -/
def udpNewPort (k : Nat) : UInt16 := UInt16.ofNat (0xC000 + k % 16384)

def idleClient : NetState := ⟨⟨0, 0, 0⟩, ⟨false, 0, true, []⟩, ⟨0, [], 0, ⟨true, true, 0, []⟩⟩⟩

/-- A reply whose transmit timestamp is `t` seconds. -/
def replyTo (dest : UInt16) (t : UInt8) : Delivery :=
  .datagram dest (some ⟨0, [List.replicate 43 0 ++ [t] ++ List.replicate 4 0]⟩) serverAddr ntpPort

/-- Two calls; a second copy of the first one's reply arrives during the second call, before its own. -/
theorem late_replies_harmless_two :
    netResults udpNewPort idleClient
        [.call ⟨true, true, 0, [[replyTo 0xC000 1]]⟩, .idle [replyTo 0xC000 2],
         .call ⟨true, true, 0, [[replyTo 0xC000 3], [replyTo 0xC001 4]]⟩] =
      [(0, istOfTimestamp 1), (0, istOfTimestamp 4)] := by
  have fresh : ∀ i j, i < j → j ≤ i + 16383 → udpNewPort i ≠ udpNewPort j := fun i j hlt hle heq => by
    have := congrArg UInt16.toNat heq
    simp only [udpNewPort, UInt16.toNat_ofNat'] at this
    omega
  rw [(late_replies_harmless udpNewPort fresh idleClient rfl _ (by decide)).1]
  decide +kernel

end SpeakingClock
