import SpeakingClock.Theorems.Receive

/-! The FIFOs after `lan9118_hw_init`. Its loop reads status words and leaves their data words
    (`drainStale_eq`), so the FIFOs are in step afterwards only if the packets it passed had none. Then
    every later frame is delivered with its own bytes; else each is delivered with those before it. -/

namespace SpeakingClock
open Words

theorem arrive_of_nil {d : Fifos} (h : d.arrivals = []) : d.arrive = d := by
  obtain ⟨statusFifo, dataFifo, arrivals, allocs, results, inputs⟩ := d
  obtain rfl : arrivals = [] := h
  simp [Fifos.arrive]

theorem rxFifoInf_of_nil {d : Fifos} (h : d.arrivals = []) : fifoDevice.rxFifoInf d = (d.fifoInf, d) := by
  simp [fifoDevice, arrive_of_nil h]

/-- The loop stops when the eight bits of the count read zero, or before its hundredth status word. -/
theorem drainStale_eq (timeout : Nat) {d : Fifos} (h : d.arrivals = []) :
    drainStale fifoDevice (timeout + 1) d =
      { d with statusFifo := d.statusFifo.drop (min (d.statusFifo.length % 256) timeout) } := by
  induction timeout generalizing d with
  | zero => simp [drainStale, rxFifoInf_of_nil h]
  | succ timeout ih =>
    rw [drainStale, rxFifoInf_of_nil h]
    dsimp only
    by_cases hpending : d.statusFifo.length % 256 = 0
    · rw [if_neg fun hp => (rxPending_iff d).mp hp.1 hpending, hpending]
      simp
    · obtain ⟨p, rest, hfifo⟩ : ∃ p rest, d.statusFifo = p :: rest := by
        refine List.exists_cons_of_ne_nil fun hnil => hpending ?_
        rw [hnil]
        rfl
      have hread : (fifoDevice.rxStatusFifo d).2 = { d with statusFifo := rest } := by
        simp [fifoDevice, arrive_of_nil h, hfifo]
      rw [if_pos ⟨(rxPending_iff d).mpr hpending, by omega⟩, hread, ih (d := { d with statusFifo := rest }) h]
      rw [hfifo, List.length_cons] at hpending ⊢
      have hmin : min ((rest.length + 1) % 256) (timeout + 1) = min (rest.length % 256) timeout + 1 := by omega
      rw [hmin, List.drop_succ_cons]

theorem flatMap_words_eq_nil {ps : List Packet} : ps.flatMap Packet.words = [] ↔ ∀ p ∈ ps, p.len = 0 := by
  rw [List.flatMap_eq_nil_iff]
  exact forall₂_congr fun p _ => p.words_eq_nil

section
variable {all popped : List Packet} {script : List Alloc} {d : Fifos}

/-- With nothing more to come, as many iterations as there are packets read them all. -/
theorem InStep.drained (h : InStep all script popped d) (hend : d.arrivals = []) (hfew : d.statusFifo.length < 256) :
    InStep all script all ((nextHead fifoDevice)^[d.statusFifo.length] d) := by
  have keeps : Keeps fifoDevice fun d : Fifos => d.arrivals = [] := by
    have htail : ∀ d : Fifos, d.arrivals = [] → d.arrive.arrivals = [] := fun d h => by rw [arrive_of_nil h, h]
    exact ⟨htail, htail, htail, fun _ _ h => h, fun _ _ h => h, fun _ _ h => h⟩
  have total : ∀ {d : Fifos}, d.arrivals = [] → d.total = d.statusFifo := fun h => by simp [Fifos.total, h]
  induction hlen : d.statusFifo.length generalizing popped d with
  | zero =>
    have hall : popped = all := by rw [← h.total, total hend, List.length_eq_zero_iff.mp hlen, List.append_nil]
    rw [hall] at h
    exact h
  | succ k ih =>
    have harrive := arrive_of_nil hend
    obtain ⟨p, it⟩ := h.nextHead_iterated (by rw [harrive]; omega)
    have hend' := keeps.nextHead hend
    have hcount := congrArg List.length it.total
    rw [total_arrive, total hend, total hend', List.length_cons] at hcount
    rw [Function.iterate_succ_apply]
    exact ih (h.arrive.next it) hend' (by omega) (by omega)

end

/-- **Initialisation and the FIFOs.** With the packets `stale` queued, the drain loop leaves the FIFOs in
    step, and from then on, whatever arrives and however the allocations go, the FIFOs stay in step and
    each packet is delivered with its own bytes, exactly when the packets whose status word the loop
    reads are all empty: the first 99 at most, and of 256 or more the excess over a multiple of 256. -/
theorem drainStale_in_step_iff (stale : List Packet) :
    let d := drainStale fifoDevice 100 (.queued stale)
    (d.dataFifo = d.statusFifo.flatMap Packet.words ∧
      ∀ arrivals allocs results n,
        let e := (nextHead fifoDevice)^[n] { d with arrivals := arrivals, allocs := allocs, results := results }
        e.dataFifo = e.statusFifo.flatMap Packet.words ∧
          (∃ popped, popped ++ e.statusFifo ++ e.arrivals.flatten = d.statusFifo ++ arrivals.flatten ∧
            e.inputs.map Chain.payload = delivered popped allocs) ∧
          (e.arrivals = [] → e.statusFifo.length < 256 →
            ((nextHead fifoDevice)^[e.statusFifo.length] e).inputs.map Chain.payload =
              delivered (d.statusFifo ++ arrivals.flatten) allocs)) ↔
    ∀ p ∈ stale.take (min (stale.length % 256) 99), p.len = 0 := by
  intro d
  have hdrain : d = ⟨stale.drop (min (stale.length % 256) 99), stale.flatMap Packet.words, [], [], [], []⟩ :=
    drainStale_eq 99 rfl
  have hdata : d.dataFifo = d.statusFifo.flatMap Packet.words ↔
      ∀ p ∈ stale.take (min (stale.length % 256) 99), p.len = 0 := by
    rw [← flatMap_words_eq_nil, hdrain]
    dsimp only
    nth_rewrite 1 [← List.take_append_drop (min (stale.length % 256) 99) stale]
    rw [List.flatMap_append]
    exact List.append_left_eq_self
  rw [← hdata]
  refine ⟨And.left, fun h => ⟨h, fun arrivals allocs results n => ?_⟩⟩
  have start : InStep (d.statusFifo ++ arrivals.flatten) allocs []
      { d with arrivals := arrivals, allocs := allocs, results := results } :=
    ⟨rfl, h, rfl, by rw [hdrain]; rfl, by rw [hdrain]; simp⟩
  obtain ⟨popped, hstep⟩ := start.atHead n
  refine ⟨hstep.data, ⟨popped, ?_, hstep.inputs⟩, fun hend hfew => (hstep.drained hend hfew).inputs⟩
  rw [List.append_assoc]
  exact hstep.total

/-- One stale packet of 64 bytes: its data words stay, and the first frame afterwards, also of 64 bytes, is
    delivered with them in place of its own. -/
theorem drainStale_leaves_words :
    let stale : Packet := ⟨0x00400000, List.replicate 16 0xAAAAAAAA, rfl⟩
    let frame : Packet := ⟨0x00400000, List.replicate 16 0x55555555, rfl⟩
    let d := drainStale fifoDevice 100 (.queued [stale])
    let e := nextHead fifoDevice { d with arrivals := [[frame]], allocs := [⟨1, 0, fun _ _ => 0⟩] }
    d.statusFifo.length = 0 ∧ ¬d.dataFifo = d.statusFifo.flatMap Packet.words ∧
      frame.body = List.replicate 60 0x55 ∧ e.inputs.map Chain.payload = [List.replicate 60 0xAA] := by
  decide +kernel

end SpeakingClock
