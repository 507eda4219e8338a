import SpeakingClock.Theorems.Frames

/-! The receive FIFOs stay in step. At every head of the loop of `lan9118_poll` the unread data words are
    those of the packets whose status word is unread, and what was handed to lwIP is, in order, the
    packets whose allocation succeeded. An iteration reads one packet whole (`Iterated`); while it does,
    the packet's remaining words are owed (`Fifos.Owes`). The device that receives only whole frames
    is a case of the one that may hold packets of any length. -/

namespace SpeakingClock
open Words

/-! ### Packets -/

namespace Packet
variable (p : Packet)

theorem length_body : p.body.length = if p.len > 4 then p.len - 4 else p.len := by
  have hle : p.len ≤ 4 * wordCount p.len := by unfold wordCount; omega
  rw [body, List.length_take, length_bytesOf, p.words_len, ← len]
  split <;> omega

theorem body_eq_take : p.body = (bytesOf p.words).take p.body.length := by
  rw [length_body]
  rfl

theorem wordCount_body : wordCount p.body.length ≤ p.words.length := by
  rw [length_body, p.words_len, ← len]
  unfold wordCount
  split <;> omega

theorem words_eq_nil : p.words = [] ↔ p.len = 0 := by
  rw [← List.length_eq_zero_iff, p.words_len, ← len]
  unfold wordCount
  omega

/-- The lengths that the driver computes from the status word. -/
theorem lengths :
    let rawLen := (p.status >>> 16) &&& 0x3FFF
    (rawLen = 0 ↔ p.len = 0) ∧ (if rawLen > 4 then rawLen - 4 else rawLen).toNat = p.body.length ∧
      ((rawLen + 3) / 4).toNat = p.words.length := by
  intro rawLen
  have hraw : rawLen.toNat = p.len := rfl
  have hle : p.len ≤ 0x3FFF := by
    rw [← hraw, UInt32.toNat_and]
    exact Nat.and_le_right
  refine ⟨?_, ?_, ?_⟩
  · rw [← hraw]
    exact UInt32.toNat_inj.symm
  · rw [length_body, ← hraw]
    by_cases hgt : rawLen > 4
    · have hgt' : rawLen.toNat > 4 := UInt32.lt_iff_toNat_lt.mp hgt
      rw [if_pos hgt, if_pos hgt', UInt32.toNat_sub_of_le _ _ (UInt32.le_of_lt hgt)]
      rfl
    · have hgt' : ¬rawLen.toNat > 4 := fun h => hgt (UInt32.lt_iff_toNat_lt.mpr h)
      rw [if_neg hgt, if_neg hgt']
  · rw [UInt32.toNat_div, UInt32.toNat_add, p.words_len, ← len, wordCount]
    simp
    omega

end Packet

/-- The bodies to be handed to lwIP: of the packets that are not empty and whose allocation succeeds. -/
def delivered : List Packet → List Alloc → List Bytes
  | [], _ => []
  | p :: ps, allocs =>
    if p.len = 0 then delivered ps allocs
    else (if allocs.head?.any (·.ok p.body.length) then [p.body] else []) ++ delivered ps allocs.tail

/-- How many of the packets need a buffer. -/
def nonempty (ps : List Packet) : Nat := ps.countP (·.len ≠ 0)

theorem delivered_append (ps qs : List Packet) (allocs : List Alloc) :
    delivered (ps ++ qs) allocs = delivered ps allocs ++ delivered qs (allocs.drop (nonempty ps)) := by
  induction ps generalizing allocs with
  | nil => simp [delivered, nonempty]
  | cons p ps ih =>
    by_cases hp : p.len = 0
    · have hcount : nonempty (p :: ps) = nonempty ps := by simp [nonempty, hp]
      simp only [List.cons_append, delivered, hp, ↓reduceIte, ih, hcount]
    · have hcount : nonempty (p :: ps) = nonempty ps + 1 := by simp [nonempty, hp]
      simp only [List.cons_append, delivered, hp, ↓reduceIte, ih, hcount, List.append_assoc, List.drop_tail]

/-! ### One iteration -/

/-- What is unread and what is still to arrive. -/
def Fifos.total (d : Fifos) : List Packet := d.statusFifo ++ d.arrivals.flatten

/-- The unread data words are `owed` and those of the packets whose status word is unread; nothing but
    registers was read since `d₀`. -/
structure Fifos.Owes (d₀ : Fifos) (owed : List UInt32) (d : Fifos) : Prop where
  data : d.dataFifo = owed ++ d.statusFifo.flatMap Packet.words
  total : d.total = d₀.total
  allocs : d.allocs = d₀.allocs
  inputs : d.inputs = d₀.inputs

/-- No word is stored past the buffer of a segment. -/
def Chain.Fits (c : Chain) : Prop := ∀ q ∈ c.segs, ∀ i ∈ q.stores, 4 * (i + 1) ≤ pbufPoolBufsize

/-- What an iteration does with the packet `p`: nothing, when it is empty; drop it, without a buffer; or
    hand it to lwIP. -/
inductive Took (p : Packet) (d d' : Fifos) : Prop where
  | empty : p.len = 0 → d'.allocs = d.allocs → d'.inputs = d.inputs → Took p d d'
  | dropped : p.len ≠ 0 → d.allocs.head?.any (·.ok p.body.length) = false → d'.allocs = d.allocs.tail →
      d'.inputs = d.inputs → Took p d d'
  | handed (c : Chain) : p.len ≠ 0 → d.allocs.head?.any (·.ok p.body.length) = true → d'.allocs = d.allocs.tail →
      d'.inputs = d.inputs ++ [c] → c.payload = p.body → c.Fits → Took p d d'

/-- One iteration, from FIFOs in step: the next packet is read whole. -/
structure Iterated (p : Packet) (d d' : Fifos) : Prop where
  total : d.total = p :: d'.total
  data : d'.dataFifo = d'.statusFifo.flatMap Packet.words
  took : Took p d d'

section
variable {d₀ d : Fifos} {owed : List UInt32}

theorem total_arrive (d : Fifos) : d.arrive.total = d.total := by
  simp only [Fifos.total, Fifos.arrive]
  cases d.arrivals <;> simp

theorem Fifos.Owes.arrive (h : d₀.Owes owed d) : d₀.Owes owed d.arrive where
  data := by simp [Fifos.arrive, h.data]
  total := (total_arrive d).trans h.total
  allocs := h.allocs
  inputs := h.inputs

theorem nextWords_owes (d₀ : Fifos) : NextWords fifoDevice d₀.Owes := by
  intro w ws d h
  have hread := h.arrive
  refine ⟨?_, ?_, hread.total, hread.allocs, hread.inputs⟩
  · show d.arrive.dataFifo.headD 0 = w
    rw [hread.data]
    rfl
  · show d.arrive.dataFifo.tail = _
    rw [hread.data]
    rfl

/-- Reading a status word: its packet's data words are now owed. -/
theorem statusRead (hdata : d.dataFifo = d.statusFifo.flatMap Packet.words) (hne : d.statusFifo ≠ []) :
    ∃ p d', fifoDevice.rxStatusFifo d = (p.status, d') ∧ d.total = p :: d'.total ∧ d'.Owes p.words d' ∧
      d'.allocs = d.allocs ∧ d'.inputs = d.inputs := by
  obtain ⟨p, rest, hfifo⟩ : ∃ p rest, d.arrive.statusFifo = p :: rest :=
    List.exists_cons_of_ne_nil (by simp [Fifos.arrive, hne])
  have howes : d.Owes [] d := ⟨hdata, rfl, rfl, rfl⟩
  have hread := howes.arrive
  refine ⟨p, { d.arrive with statusFifo := rest }, ?_, ?_, ⟨?_, rfl, rfl, rfl⟩, rfl, rfl⟩
  · simp [fifoDevice, hfifo]
  · rw [← hread.total, Fifos.total, hfifo]
    rfl
  · show d.arrive.dataFifo = _
    rw [hread.data, hfifo]
    rfl

theorem fifo_alloc_none {n : Nat} (h : d.allocs.head?.bind (·.chain n) = none) :
    d.allocs.head?.any (·.ok n) = false := by
  cases hhead : d.allocs.head? with
  | none => rfl
  | some a =>
    rw [hhead, Option.bind_some] at h
    exact Alloc.chain_none h

/-- A packet is read whole, whether it is handed to lwIP or dropped. -/
theorem pollBody_iterated (hdata : d.dataFifo = d.statusFifo.flatMap Packet.words) (hne : d.statusFifo ≠ []) :
    ∃ p, Iterated p d (pollBody fifoDevice d) := by
  obtain ⟨p, d₁, hstatus, htotal, howes, hallocs, hinputs⟩ := statusRead hdata hne
  obtain ⟨hraw, hpkt, hwords⟩ := p.lengths
  refine ⟨p, ?_⟩
  unfold pollBody
  rw [hstatus]
  dsimp only
  by_cases hlen : p.len = 0
  · rw [if_pos (hraw.mpr hlen)]
    refine ⟨htotal, ?_, .empty hlen hallocs hinputs⟩
    rw [howes.data, p.words_eq_nil.mpr hlen, List.nil_append]
  · rw [if_neg fun h => hlen (hraw.mp h), hpkt]
    obtain ⟨d₂, hd₂⟩ : ∃ d₂ : Fifos, d₂ = { d₁ with allocs := d₁.allocs.tail } := ⟨_, rfl⟩
    have howes₂ : d₂.Owes p.words d₂ := ⟨by rw [hd₂]; exact howes.data, rfl, rfl, rfl⟩
    have htotal₂ : d.total = p :: d₂.total := by rw [htotal, hd₂]; rfl
    have hallocs₂ : d₂.allocs = d.allocs.tail := by rw [← hallocs, hd₂]
    have hinputs₂ : d₂.inputs = d.inputs := by rw [← hinputs, hd₂]
    have halloc : fifoDevice.pbufAlloc p.body.length d₁ = (d.allocs.head?.bind (·.chain p.body.length), d₂) := by
      rw [hd₂, ← hallocs]
      rfl
    rw [halloc]
    cases hchain : d.allocs.head?.bind (·.chain p.body.length) with
    | none =>
      dsimp only
      rw [hwords]
      rw [← List.append_nil p.words] at howes₂
      have hend := (nextWords_owes d₂).discarded howes₂
      exact ⟨by rw [htotal₂, hend.total], hend.data,
        .dropped hlen (fifo_alloc_none hchain) (hend.allocs.trans hallocs₂) (hend.inputs.trans hinputs₂)⟩
    | some c =>
      obtain ⟨a, hhead, hc⟩ := Option.bind_eq_some_iff.mp hchain
      obtain ⟨hok, hsum, htight, hsegs⟩ := Alloc.chain_spec hc
      obtain ⟨vs, readWords, d₃, hfill, hpayload, hend⟩ := (nextWords_owes d₂).readChain htight howes₂ hwords
        (by rw [hsum]; exact p.wordCount_body)
      dsimp only
      rw [hfill]
      dsimp only
      -- The driver frees the chain when lwIP does not take it; the FIFOs do not see that.
      have hfree : ∀ (err : Int) (d : Fifos), (if err ≠ 0 then fifoDevice.pbufFree c.id d else d) = d := fun err d => by
        split <;> rfl
      rw [hfree]
      refine ⟨?_, hend.data, .handed { c with segs := fillSegs c.segs vs } hlen ?_ (hend.allocs.trans hallocs₂) ?_ ?_
        (stores_fillSegs hsegs vs)⟩
      · rw [htotal₂, ← hend.total]
        rfl
      · rw [hhead]
        exact hok
      · rw [← hinputs₂, ← hend.inputs]
        rfl
      · rw [p.body_eq_take, ← hsum]
        exact hpayload

end

/-! ### The heads of the loop -/

theorem and_statusMask {a b : Nat} (ha : a < 256) (hb : b < 65536) : (65536 * a + b) &&& 0x00FF0000 = 65536 * a := by
  have hhigh : ((65536 * a + b) &&& 0x00FF0000) / 2 ^ 16 = a := by
    rw [Nat.and_div_two_pow]
    have h1 : (65536 * a + b) / 2 ^ 16 = a := by omega
    rw [h1, show 0x00FF0000 / 2 ^ 16 = 2 ^ 8 - 1 from rfl, Nat.and_two_pow_sub_one_eq_mod]
    exact Nat.mod_eq_of_lt ha
  have hlow : ((65536 * a + b) &&& 0x00FF0000) % 2 ^ 16 = 0 := by
    rw [Nat.and_mod_two_pow, show 0x00FF0000 % 2 ^ 16 = 0 from rfl, Nat.and_zero]
  omega

/-- The test at the head of the loop sees the number of unread status words in eight bits. -/
theorem rxPending_iff (d : Fifos) : rxPending d.fifoInf = true ↔ d.statusFifo.length % 256 ≠ 0 := by
  have hlt : 65536 * (d.statusFifo.length % 256) + 4 * d.dataFifo.length % 65536 < 2 ^ 32 := by omega
  have hand : (d.fifoInf &&& 0x00FF0000).toNat = 65536 * (d.statusFifo.length % 256) := by
    rw [UInt32.toNat_and, Fifos.fifoInf, UInt32.toNat_ofNat', Nat.mod_eq_of_lt hlt]
    exact and_statusMask (by omega) (by omega)
  rw [rxPending, decide_eq_true_eq, ne_eq, ← UInt32.toNat_inj, hand]
  simp

/-- What holds at the heads of the loop, when the packets `all` are there or come, the allocations go as
    `script` says, and the status words of `popped` were read. -/
structure InStep (all : List Packet) (script : List Alloc) (popped : List Packet) (d : Fifos) : Prop where
  total : popped ++ d.total = all
  data : d.dataFifo = d.statusFifo.flatMap Packet.words
  allocs : d.allocs = script.drop (nonempty popped)
  inputs : d.inputs.map Chain.payload = delivered popped script
  fits : ∀ c ∈ d.inputs, c.Fits

namespace InStep
variable {all popped : List Packet} {script : List Alloc} {d d' : Fifos} {p : Packet}

theorem next (h : InStep all script popped d) (it : Iterated p d d') : InStep all script (popped ++ [p]) d' := by
  have htotal : popped ++ [p] ++ d'.total = all := by rw [← h.total, it.total, List.append_assoc]; rfl
  have hdelivered : delivered (popped ++ [p]) script = delivered popped script ++ delivered [p] d.allocs := by
    rw [delivered_append, h.allocs]
  rcases it.took with ⟨hlen, hallocs, hinputs⟩ | ⟨hlen, hok, hallocs, hinputs⟩ |
    ⟨c, hlen, hok, hallocs, hinputs, hpayload, hfits⟩
  · have hcount : nonempty (popped ++ [p]) = nonempty popped := by simp [nonempty, hlen]
    refine ⟨htotal, it.data, ?_, ?_, ?_⟩
    · rw [hallocs, h.allocs, hcount]
    · rw [hinputs, h.inputs, hdelivered]
      simp [delivered, hlen]
    · rw [hinputs]
      exact h.fits
  · have hcount : nonempty (popped ++ [p]) = nonempty popped + 1 := by simp [nonempty, hlen]
    refine ⟨htotal, it.data, ?_, ?_, ?_⟩
    · rw [hallocs, h.allocs, hcount, List.tail_drop]
    · rw [hinputs, h.inputs, hdelivered]
      simp [delivered, hlen, hok]
    · rw [hinputs]
      exact h.fits
  · have hcount : nonempty (popped ++ [p]) = nonempty popped + 1 := by simp [nonempty, hlen]
    refine ⟨htotal, it.data, ?_, ?_, ?_⟩
    · rw [hallocs, h.allocs, hcount, List.tail_drop]
    · rw [hinputs, List.map_append, h.inputs, hdelivered]
      simp [delivered, hlen, hok, hpayload]
    · rw [hinputs]
      exact List.forall_mem_append.mpr ⟨h.fits, by simpa using hfits⟩

theorem arrive (h : InStep all script popped d) : InStep all script popped d.arrive :=
  ⟨by rw [total_arrive, h.total], by simp [Fifos.arrive, h.data], h.allocs, h.inputs, h.fits⟩

/-- A head that finds packets pending reads the next of them. -/
theorem nextHead_iterated (h : InStep all script popped d) (hpending : d.arrive.statusFifo.length % 256 ≠ 0) :
    ∃ p, Iterated p d.arrive (nextHead fifoDevice d) := by
  have hne : d.arrive.statusFifo ≠ [] := by
    intro hnil
    exact hpending (by rw [hnil]; rfl)
  have hhead : nextHead fifoDevice d = pollBody fifoDevice d.arrive := if_pos ((rxPending_iff _).mpr hpending)
  rw [hhead]
  exact pollBody_iterated h.arrive.data hne

theorem atNextHead (h : InStep all script popped d) : ∃ popped', InStep all script popped' (nextHead fifoDevice d) := by
  by_cases hpending : d.arrive.statusFifo.length % 256 = 0
  · have hhead : nextHead fifoDevice d = d.arrive := if_neg fun hp => (rxPending_iff _).mp hp hpending
    rw [hhead]
    exact ⟨popped, h.arrive⟩
  · obtain ⟨p, it⟩ := h.nextHead_iterated hpending
    exact ⟨popped ++ [p], h.arrive.next it⟩

theorem atHead (h : InStep all script popped d) (n : Nat) :
    ∃ popped', InStep all script popped' ((nextHead fifoDevice)^[n] d) := by
  induction n with
  | zero => exact ⟨popped, h⟩
  | succ n ih =>
    obtain ⟨popped', h'⟩ := ih
    rw [Function.iterate_succ_apply']
    exact h'.atNextHead

end InStep

/-! ### Whole frames -/

def Arrival.packet : Arrival → Packet
  | .frame f => ⟨f.status, f.words, by rw [f.words_len, f.status_len]⟩
  | .empty status len => ⟨status, [], by rw [len]; rfl⟩

def Rx.fifos (d : Rx) : Fifos :=
  ⟨d.statusFifo.map Arrival.packet, d.dataFifo, d.arrivals.map (·.map Arrival.packet), d.allocs, d.results, d.inputs⟩

/-- The bodies to be handed to lwIP: of the frames whose allocation succeeds, in order. -/
def handed : List Arrival → List Alloc → List Bytes
  | [], _ => []
  | .empty .. :: as, allocs => handed as allocs
  | .frame f :: as, allocs =>
    (if allocs.head?.any (·.ok f.body.length) then [f.body] else []) ++ handed as allocs.tail

/-- What arrived so far and what is still to arrive. -/
def Rx.total (d : Rx) : List Arrival := d.arrived ++ d.arrivals.flatten

section
variable (d : Rx)

theorem words_packet (a : Arrival) : a.packet.words = a.words := by cases a <;> rfl

theorem status_packet (a : Arrival) : a.packet.status = a.status := by cases a <;> rfl

theorem body_packet (f : Frame) : (Arrival.frame f).packet.body = f.body := by
  have hlen : (Arrival.frame f).packet.len = f.body.length + 4 := f.status_len
  have hpos := f.body_pos
  rw [Packet.body, hlen, if_pos (by omega), Nat.add_sub_cancel]
  exact f.words_body

theorem handed_eq_delivered (as : List Arrival) (allocs : List Alloc) :
    handed as allocs = delivered (as.map Arrival.packet) allocs := by
  induction as generalizing allocs with
  | nil => rfl
  | cons a as ih =>
    cases a with
    | frame f =>
      have hlen : (Arrival.frame f).packet.len ≠ 0 := by
        rw [Packet.len, show (Arrival.frame f).packet.status = f.status from rfl, f.status_len]
        omega
      rw [handed, List.map_cons, delivered, if_neg hlen, body_packet, ih]
    | empty status len =>
      have hlen : (Arrival.empty status len).packet.len = 0 := by
        rw [Packet.len, show (Arrival.empty status len).packet.status = status from rfl, len]
        rfl
      rw [handed, List.map_cons, delivered, if_pos hlen, ih]

theorem flatMap_words (as : List Arrival) : (as.map Arrival.packet).flatMap Packet.words = as.flatMap Arrival.words := by
  rw [List.flatMap_map]
  exact congrArg (as.flatMap ·) (funext words_packet)

theorem fifos_arrive : d.fifos.arrive = d.arrive.fifos := by
  obtain ⟨arrived, statusFifo, dataFifo, arrivals, allocs, results, inputs⟩ := d
  cases arrivals with
  | nil => simp [Rx.fifos, Fifos.arrive, Rx.arrive]
  | cons new arrivals => simp [Rx.fifos, Fifos.arrive, Rx.arrive, flatMap_words]

/-- The device of whole frames, seen as one of packets. -/
theorem hom_fifos : Hom rxDevice fifoDevice Rx.fifos where
  rxFifoInf d := by
    show (d.fifos.arrive.fifoInf, d.fifos.arrive) = (d.arrive.fifoInf, d.arrive.fifos)
    rw [fifos_arrive, Fifos.fifoInf, Rx.fifoInf]
    simp [Rx.fifos]
  rxStatusFifo d := by
    simp only [fifoDevice, fifos_arrive, rxDevice]
    cases hfifo : d.arrive.statusFifo with
    | nil => simp [Rx.fifos, hfifo]
    | cons a rest => simp [Rx.fifos, hfifo, status_packet]
  rxDataFifo d := by
    simp only [fifoDevice, fifos_arrive, rxDevice]
    rfl
  pbufAlloc _ _ := rfl
  input _ _ := rfl
  pbufFree _ _ := rfl

/-- Status words are read in the order in which they arrived, and nothing arrives that was not to. -/
structure Rx.Ordered (all : List Arrival) (d : Rx) : Prop where
  arrived : ∃ popped, d.arrived = popped ++ d.statusFifo
  total : d.total = all

theorem Rx.Ordered.arrive {all : List Arrival} {d : Rx} (h : d.Ordered all) : d.arrive.Ordered all := by
  obtain ⟨popped, harrived⟩ := h.arrived
  refine ⟨⟨popped, by simp [Rx.arrive, harrived]⟩, ?_⟩
  rw [← h.total]
  simp only [Rx.total, Rx.arrive]
  cases d.arrivals <;> simp

theorem keeps_ordered (all : List Arrival) : Keeps rxDevice (Rx.Ordered all) where
  rxFifoInf _ h := h.arrive
  rxStatusFifo d h := by
    obtain ⟨popped, harrived⟩ := h.arrive.arrived
    refine ⟨?_, h.arrive.total⟩
    cases hfifo : d.arrive.statusFifo with
    | nil => exact ⟨popped, by simp [rxDevice, harrived, hfifo]⟩
    | cons a rest => exact ⟨popped ++ [a], by simp [rxDevice, harrived, hfifo]⟩
  rxDataFifo _ h := ⟨h.arrive.arrived, h.arrive.total⟩
  pbufAlloc _ _ h := ⟨h.arrived, h.total⟩
  input _ _ h := ⟨h.arrived, h.total⟩
  pbufFree _ _ h := h

end

/-! ### Runs -/

theorem lan9118Poll_heads {S : Type} (R : RxOps S) (n : Nat) (s : S) :
    ∃ k, lan9118Poll R n s = (nextHead R)^[k] s := by
  induction n generalizing s with
  | zero => exact ⟨0, rfl⟩
  | succ n ih =>
    rw [lan9118Poll]
    by_cases hpending : rxPending (R.rxFifoInf s).1
    · obtain ⟨k, hk⟩ := ih (pollBody R (R.rxFifoInf s).2)
      have hnext : nextHead R s = pollBody R (R.rxFifoInf s).2 := if_pos hpending
      refine ⟨k + 1, ?_⟩
      rw [Function.iterate_succ_apply, hnext, ← hk]
      exact if_pos hpending
    · have hnext : nextHead R s = (R.rxFifoInf s).2 := if_neg hpending
      refine ⟨1, ?_⟩
      rw [Function.iterate_one, hnext]
      exact if_neg hpending

/-- **The receive FIFOs stay in step.** From empty FIFOs, whatever arrives before each register read,
    however the allocations go and whatever `netif->input` returns: at the `n`-th head of the loop,
    counted over any number of polls, the unread data words are those of the arrivals whose status
    word is unread; what was handed to lwIP is, in order, the frames whose allocation succeeded, each
    with its body; and no word was stored past the buffer of a segment. Every poll ends at a head. -/
theorem rx_in_step (arrivals : List (List Arrival)) (allocs : List Alloc) (results : List Int) (n : Nat) :
    let d := (nextHead rxDevice)^[n] (Rx.start arrivals allocs results)
    d.arrived ++ d.arrivals.flatten = arrivals.flatten ∧
    d.dataFifo = d.statusFifo.flatMap Arrival.words ∧
    (∃ popped, d.arrived = popped ++ d.statusFifo ∧ d.inputs.map Chain.payload = handed popped allocs) ∧
    (∀ p ∈ d.inputs, ∀ q ∈ p.segs, ∀ i ∈ q.stores, 4 * (i + 1) ≤ pbufPoolBufsize) ∧
    ∀ iterations : List Nat, ∃ k,
      iterations.foldl (fun d n => lan9118Poll rxDevice n d) d = (nextHead rxDevice)^[k] d := by
  intro d
  have start : InStep (arrivals.flatten.map Arrival.packet) allocs [] (Rx.start arrivals allocs results).fifos :=
    ⟨by simp [Fifos.total, Rx.fifos, Rx.start, List.map_flatten], rfl, rfl, rfl, by simp [Rx.fifos, Rx.start]⟩
  obtain ⟨popped, hstep⟩ := start.atHead n
  rw [hom_fifos.iterate] at hstep
  have hordered : d.Ordered arrivals.flatten :=
    (keeps_ordered arrivals.flatten).iterate ⟨⟨[], rfl⟩, rfl⟩ n
  obtain ⟨popped', harrived⟩ := hordered.arrived
  have hpopped : popped = popped'.map Arrival.packet := by
    have htotal : popped ++ d.fifos.total = (popped' ++ d.statusFifo ++ d.arrivals.flatten).map Arrival.packet := by
      rw [← harrived, ← Rx.total, hordered.total]
      exact hstep.total
    have hrest : d.fifos.total = (d.statusFifo ++ d.arrivals.flatten).map Arrival.packet := by
      simp [Fifos.total, Rx.fifos, List.map_flatten]
    rw [List.append_assoc, List.map_append, hrest] at htotal
    exact List.append_cancel_right htotal
  refine ⟨hordered.total, ?_, ⟨popped', harrived, ?_⟩, hstep.fits, fun iterations => ?_⟩
  · rw [← flatMap_words]
    exact hstep.data
  · rw [handed_eq_delivered, ← hpopped]
    exact hstep.inputs
  · generalize d = e
    induction iterations generalizing e with
    | nil => exact ⟨0, rfl⟩
    | cons m ms ih =>
      obtain ⟨k, hk⟩ := lan9118Poll_heads rxDevice m e
      obtain ⟨k', hk'⟩ := ih (lan9118Poll rxDevice m e)
      exact ⟨k' + k, by rw [List.foldl_cons, hk', hk, Function.iterate_add_apply]⟩

/-- How many status words were read. -/
def Rx.reads (d : Rx) : Nat := d.arrived.length - d.statusFifo.length

/-- At every head, the loop goes on when a status word is pending (the device shows their number modulo 256),
    and then it reads exactly one packet before the next head. -/
theorem rx_reads (arrivals : List (List Arrival)) (allocs : List Alloc) (results : List Int) (n : Nat) :
    let d := (nextHead rxDevice)^[n] (Rx.start arrivals allocs results)
    (nextHead rxDevice d).reads = d.reads + if d.arrive.statusFifo.length % 256 = 0 then 0 else 1 := by
  intro d
  have start : InStep (arrivals.flatten.map Arrival.packet) allocs [] (Rx.start arrivals allocs results).fifos :=
    ⟨by simp [Fifos.total, Rx.fifos, Rx.start, List.map_flatten], rfl, rfl, rfl, by simp [Rx.fifos, Rx.start]⟩
  obtain ⟨popped, hstep⟩ := start.atHead n
  rw [hom_fifos.iterate] at hstep
  change InStep _ _ _ d.fifos at hstep
  have hordered : d.Ordered arrivals.flatten := (keeps_ordered arrivals.flatten).iterate ⟨⟨[], rfl⟩, rfl⟩ n
  have hnext : (nextHead rxDevice d).Ordered arrivals.flatten := (keeps_ordered arrivals.flatten).nextHead hordered
  -- The packets that were not read are those in the FIFO and those to come.
  have hreads {e : Rx} (he : e.Ordered arrivals.flatten) : e.reads + e.fifos.total.length = arrivals.flatten.length := by
    obtain ⟨popped', harrived⟩ := he.arrived
    have htotal := congrArg List.length he.total
    simp only [Rx.reads, Rx.total, Rx.fifos, Fifos.total, harrived, List.length_append, List.length_map,
      ← List.map_flatten] at htotal ⊢
    omega
  have hbefore := hreads hordered
  have hafter := hreads hnext
  have hfifo : d.fifos.arrive.statusFifo.length = d.arrive.statusFifo.length := by
    rw [fifos_arrive]
    exact List.length_map ..
  rw [← hom_fifos.nextHead] at hafter
  split
  · rename_i hnone
    have hhead : nextHead fifoDevice d.fifos = d.fifos.arrive :=
      if_neg fun hp => (rxPending_iff _).mp hp (hfifo ▸ hnone)
    rw [hhead, total_arrive] at hafter
    omega
  · rename_i hpending
    obtain ⟨p, it⟩ := hstep.nextHead_iterated (hfifo ▸ hpending)
    have htotal := congrArg List.length it.total
    rw [total_arrive, List.length_cons] at htotal
    omega

/-- A frame whose body is one byte; its two words hold the byte, the CRC and padding. -/
def byteFrame : Frame where
  body := [0xAA]
  words := [0xAA, 0]
  status := 0x50000
  body_pos := Nat.le_refl 1
  body_le := by decide
  status_len := rfl
  words_len := rfl
  words_body := rfl

/-- Two frames: one gets a buffer and is handed to lwIP, the other gets none and is read all the same. -/
example : let d := (nextHead rxDevice)^[2] (Rx.start [[.frame byteFrame, .frame byteFrame]]
      [⟨1, 0, fun _ _ => 0⟩, ⟨0, 0, fun _ _ => 0⟩] [0])
    (d.reads, d.dataFifo, d.inputs.map Chain.payload) = (2, [], [[0xAA]]) := by decide +kernel

end SpeakingClock
