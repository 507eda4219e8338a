import SpeakingClock.Stack
import SpeakingClock.Theorems.Query
import SpeakingClock.Theorems.Frames

/-! Network resources are conserved. Every part of a call or of a poll leaves the account balanced
    (`Stack.Kept`): the callback closes what lwIP opens, an iteration of `lan9118_poll` closes the frame
    it opens on both branches, and each exit of `ntp_get_time` closes the PCB and the request. -/

namespace SpeakingClock
open Ledger

/-- From `w` to `w'` the account balances, and no register is read twice. -/
structure Stack.Kept (w w' : Stack) : Prop where
  settles : Account.Settles Fits w.account w'.account
  regs : w'.regs.length ≤ w.regs.length

namespace Stack.Kept
variable {w w' w'' : Stack}

theorem refl (w : Stack) : w.Kept w := ⟨.refl _, Nat.le_refl _⟩

theorem trans (h : w.Kept w') (h' : w'.Kept w'') : w.Kept w'' :=
  ⟨h.settles.trans h'.settles, h'.regs.trans h.regs⟩

theorem bracket {g : Obtained} {h : GivenUp} (hfits : Fits g h) (hin : (w.gain g).Kept w') :
    w.Kept (w'.lose h w.account.next) := ⟨.bracket hfits hin.settles, hin.regs⟩

theorem of_eq (haccount : w'.account = w.account) (hregs : w'.regs = w.regs) : w.Kept w' :=
  ⟨haccount ▸ .refl _, by rw [hregs]⟩

end Stack.Kept

theorem kept_read (w : Stack) : w.Kept w.read.2 :=
  ⟨.refl _, by simp [Stack.read]⟩

/-! ### Calls from lwIP -/

theorem kept_upcall (s : App × Stack) (u : Upcall) : s.2.Kept (upcall (dispatch stackLwip) s u).2 := by
  rcases u with ⟨_ | segs, addr, port⟩ | ⟨ip, netmask, gw⟩
  · exact .refl _
  · -- The callback frees the buffer on both branches of its length check.
    exact .bracket .received (.refl _)
  · exact .refl _

theorem kept_upcalls (us : List Upcall) (s : App × Stack) : s.2.Kept (us.foldl (upcall (dispatch stackLwip)) s).2 := by
  induction us generalizing s with
  | nil => exact .refl _
  | cons u us ih => exact (kept_upcall s u).trans (ih _)

/-! ### The driver -/

section
variable {s s' : App × Stack}

theorem kept_dataRead {w : Stack} (s : App × Stack) (h : w.Kept s.2) :
    w.Kept ((stackRx (dispatch stackLwip)).rxDataFifo s).2.2 := h.trans (kept_read s.2)

theorem stackRx_alloc_none {call : Callback → App × Stack → App × Stack} {len : Nat}
    (h : (stackRx call).pbufAlloc len s = (none, s')) : s.2.Kept s'.2 := by
  simp only [stackRx] at h
  split at h
  · cases h
  · cases h
    exact .of_eq rfl rfl

theorem stackRx_alloc_some {call : Callback → App × Stack → App × Stack} {len : Nat} {p : Chain}
    (h : (stackRx call).pbufAlloc len s = (some p, s')) :
    p.id = s.2.account.next ∧ (s.2.gain .frame).Kept s'.2 := by
  simp only [stackRx] at h
  split at h
  · rename_i q hchain
    cases h
    obtain ⟨a, -, ha⟩ := Option.bind_eq_some_iff.mp hchain
    obtain ⟨lens, -, rfl⟩ := Option.map_eq_some_iff.mp ha
    exact ⟨rfl, .of_eq rfl rfl⟩
  · cases h

theorem stackRx_input {p : Chain} {err : Int} (h : (stackRx (dispatch stackLwip)).input p s = (err, s')) :
    ∃ w, s.2.Kept w ∧ s'.2 = if err = 0 then w.lose .accepted p.id else w := by
  obtain ⟨rfl, rfl⟩ := Prod.mk.inj h
  refine ⟨_, ?_, rfl⟩
  have hpop : s.2.Kept { s.2 with inputs := s.2.inputs.tail } := .of_eq rfl rfl
  exact hpop.trans (kept_upcalls _ (s.1, { s.2 with inputs := s.2.inputs.tail }))

/-- An iteration gives the frame to lwIP, or frees it when lwIP returns it, or has none. -/
theorem kept_pollBody (s : App × Stack) : s.2.Kept (pollBody (stackRx (dispatch stackLwip)) s).2 := by
  have hstatus : s.2.Kept ((stackRx (dispatch stackLwip)).rxStatusFifo s).2.2 := kept_read s.2
  refine pollBody_cases (P := fun s' : App × Stack => s.2.Kept s'.2) hstatus ?_ ?_
  · intro len n s' halloc
    exact discard_keeps kept_dataRead n (hstatus.trans (stackRx_alloc_none halloc))
  · intro len n words p s' segs err s'' halloc hinput
    obtain ⟨hid, hgain⟩ := stackRx_alloc_some halloc
    obtain ⟨w, hw, hend⟩ := stackRx_input hinput
    have hin := (discard_keeps kept_dataRead n (fillChain_keeps kept_dataRead words p.segs 0 hgain)).trans hw
    refine hstatus.trans ?_
    by_cases herr : err = 0
    · rw [if_neg (not_not.mpr herr), hend, if_pos herr]
      show Stack.Kept _ (w.lose .accepted p.id)
      rw [hid]
      exact .bracket .accepted hin
    · rw [if_neg herr] at hend
      rw [if_pos herr]
      show Stack.Kept _ (s''.2.lose .dropped p.id)
      rw [hid, hend]
      exact .bracket .dropped hin

theorem kept_poll (n : Nat) (s : App × Stack) : s.2.Kept (lan9118Poll (stackRx (dispatch stackLwip)) n s).2 := by
  induction n generalizing s with
  | zero => exact .refl _
  | succ n ih =>
    refine (kept_read s.2).trans ?_
    simp only [lan9118Poll]
    split
    · exact (kept_pollBody (s.1, s.2.read.2)).trans (ih _)
    · exact .refl _

/-- The fuel that a poll gets is enough. -/
theorem stackPoll_ends (s : App × Stack) {n : Nat} (hn : s.2.regs.length < n) :
    lan9118Poll (stackRx (dispatch stackLwip)) n s =
      lan9118Poll (stackRx (dispatch stackLwip)) (s.2.regs.length + 1) s := by
  refine lan9118Poll_stable (fun s => s.2.regs.length) ?_ hn (Nat.lt_succ_self _)
  intro s hinf
  have hbody := (kept_pollBody (s.1, s.2.read.2)).regs
  have htail : s.2.read.2.regs.length < s.2.regs.length := by
    -- A register that reads 0 says that nothing is pending, so this read was not past the end.
    cases hregs : s.2.regs with
    | nil =>
      have hzero : rxPending (s.2.regs.headD 0) := hinf
      rw [hregs] at hzero
      exact absurd hzero (by decide)
    | cons r regs => simp [Stack.read, hregs]
  exact hbody.trans_lt htail

end

/-! ### The client -/

theorem kept_timers (s : App × Stack) :
    s.2.Kept ((s.2.timers.headD []).foldl (upcall (dispatch stackLwip))
      (s.1, { s.2 with timers := s.2.timers.tail })).2 := by
  have hpop : s.2.Kept { s.2 with timers := s.2.timers.tail } := .of_eq rfl rfl
  exact hpop.trans (kept_upcalls _ (s.1, { s.2 with timers := s.2.timers.tail }))

theorem kept_periodicHandle (s : App × Stack) : s.2.Kept (lwipPeriodicHandle stackLwip s).2 :=
  (kept_poll (s.2.regs.length + 1) s).trans (kept_timers _)

theorem kept_waitResponse (timeout : Nat) (s : App × Stack) : s.2.Kept (waitResponse stackLwip timeout s).2 := by
  induction timeout generalizing s with
  | zero => exact .refl _
  | succ timeout ih =>
    rw [waitResponse]
    split
    · exact .refl _
    · exact (kept_periodicHandle s).trans (ih _)

theorem stack_alloc {ok : Bool} {g : Obtained} {w₀ w w' : Stack} {r : Option Nat} (haccount : w.account = w₀.account)
    (hregs : w.regs = w₀.regs) (h : (if ok then (some w.account.next, w.gain g) else (none, w)) = (r, w')) :
    r.elim (w₀.Kept w') fun n => n = w₀.account.next ∧ (w₀.gain g).Kept w' := by
  cases ok
  · cases h
    exact .of_eq haccount hregs
  · cases h
    refine ⟨congrArg Account.next haccount, .of_eq ?_ hregs⟩
    exact congrArg (Account.gain g) haccount

theorem stackLwip_new {w w' : Stack} {r : Option Nat} (h : stackLwip.udpNew w = (r, w')) :
    r.elim (w.Kept w') fun pcb => pcb = w.account.next ∧ (w.gain .udpNew).Kept w' :=
  stack_alloc (w := { w with news := w.news.tail }) rfl rfl h

theorem stackLwip_request {w w' : Stack} {r : Option Nat} (h : stackLwip.pbufAlloc w = (r, w')) :
    r.elim (w.Kept w') fun p => p = w.account.next ∧ (w.gain .request).Kept w' :=
  stack_alloc (w := { w with requests := w.requests.tail }) rfl rfl h

/-- The request is freed whatever `udp_sendto` returns. -/
theorem kept_send {w w₁ w₂ : Stack} {pcb p : Nat} {err : Int} (alloc : stackLwip.pbufAlloc w = (some p, w₁))
    (send : stackLwip.udpSendto pcb p ntpRequest serverAddr ntpPort w₁ = (err, w₂)) : w.Kept (stackLwip.pbufFree p w₂) := by
  obtain ⟨rfl, halloc⟩ := stackLwip_request alloc
  obtain ⟨-, rfl⟩ := Prod.mk.inj send
  exact .bracket .request (halloc.trans (.of_eq rfl rfl))

/-- Every exit of `ntp_get_time` has removed the PCB and freed the request. -/
theorem kept_ntpGetTime (msg : TimeMsg) (s : App × Stack) : s.2.Kept (ntpGetTime stackLwip msg s).2.2.2 := by
  have hexit := ntpGetTime_exit stackLwip msg s.1 s.2
  show s.2.Kept (ntpGetTime stackLwip msg (s.1, s.2)).2.2.2
  generalize ntpGetTime stackLwip msg (s.1, s.2) = r at hexit
  cases hexit with
  | noPcb _ new => exact stackLwip_new new
  | noPbuf _ new alloc =>
    obtain ⟨rfl, hnew⟩ := stackLwip_new new
    have hin := hnew.trans (stackLwip_request alloc)
    exact .bracket .pcb hin
  | sendFailed _ new alloc send failed =>
    obtain ⟨rfl, hnew⟩ := stackLwip_new new
    have hin := hnew.trans (kept_send alloc send)
    exact .bracket .pcb hin
  | @sent pcb p w₁ w₂ w₃ app new alloc send reset =>
    obtain ⟨rfl, hnew⟩ := stackLwip_new new
    have hwait := kept_waitResponse ntpTimeoutCycles (app, stackLwip.pbufFree p w₃)
    have hin := (hnew.trans (kept_send alloc send)).trans hwait
    rw [awaitReply_world]
    exact .bracket .pcb hin

/-! ### Runs -/

theorem kept_stackStep (s : App × Stack) (item : StackItem) : s.2.Kept (stackStep s item).2 := by
  cases item with
  | call msg => exact kept_ntpGetTime msg s
  | poll => exact kept_periodicHandle s

theorem kept_stackRun (s : App × Stack) (items : List StackItem) : s.2.Kept (stackRun s items).2 := by
  induction items generalizing s with
  | nil => exact .refl _
  | cons item items ih => exact (kept_stackStep s item).trans (ih _)

/-- **Network resources are conserved.** Over any calls and polls, one call or a whole run, from any
    state, the same PCBs and buffers are owned before and after. Each one that is obtained in between is
    obtained once and then given up once, in the way that fits: a PCB is removed, the request and a
    received packet are freed by the client, and a frame is accepted by lwIP or freed by the driver. -/
theorem resources_conserved (s : App × Stack) (items : List StackItem) :
    owned [] (stackRun s items).2.account.entries = owned [] s.2.account.entries ∧
      ∃ new, (stackRun s items).2.account.entries = s.2.account.entries ++ new ∧
        ∀ r, about r new = [] ∨ ∃ g h, Fits g h ∧ about r new = [.gain g r, .lose h r] := by
  obtain ⟨new, hnew, hbal⟩ := (kept_stackRun s items).settles
  refine ⟨?_, new, hnew, hbal.about_eq⟩
  rw [hnew, owned_append, hbal.owned_eq]

-- One call: lwIP returns the first frame, and takes the second, which brings the reply.
example : (stackRun (⟨false, 0, true, []⟩,
      { account := ⟨[], 0⟩
        news := [true]
        requests := [true]
        sends := [0]
        regs := [0x00010000, 0x00060000, 1, 2, 0x00010000, 0x00060000, 1, 2]
        allocs := [⟨1, 0, fun _ _ => 0⟩, ⟨1, 0, fun _ _ => 0⟩]
        inputs := [([], -1), ([.datagram (some [List.replicate 48 7]) serverAddr ntpPort], 0)]
        timers := [] }) [.call ⟨0, 0, 0⟩]).2.account.entries =
    [.gain .udpNew 0, .gain .request 1, .lose .freed 1, .gain .frame 2, .lose .dropped 2, .gain .frame 3,
      .gain .received 4, .lose .freed 4, .lose .accepted 3, .lose .udpRemove 0] := by
  decide +kernel

end SpeakingClock
