import SpeakingClock.Basic
import SpeakingClock.Lib.Words

/-! `network/netif_qemu.c`: the LAN9118 driver. `lan9118_poll` reads frames from the receive FIFOs and
    hands them to lwIP; `lan9118_linkoutput` writes a frame to the transmit FIFO. The registers, the
    allocator and `netif->input` are a parameter (`RxOps`) with a state of its own. -/

namespace SpeakingClock
open Words

/-! ### Receiving -/

def pbufPoolBufsize : Nat := 1536

/-- A segment of a chain from the pool: its length, the words of its buffer, and the indices of the
    words that the driver stored. -/
structure Segment where
  len : Nat
  mem : Nat → UInt32
  stores : List Nat

def Segment.store (q : Segment) (i : Nat) (w : UInt32) : Segment :=
  { q with mem := Function.update q.mem i w, stores := q.stores ++ [i] }

def Segment.payload (q : Segment) : Bytes := (bytesOf ((List.range (wordCount q.len)).map q.mem)).take q.len

structure Chain where
  id : Nat
  segs : List Segment

def Chain.payload (p : Chain) : Bytes := p.segs.flatMap Segment.payload

/-- The lengths of the segments that `pbuf_alloc(PBUF_RAW, rem_len, PBUF_POOL)` chains, with `free`
    buffers in the pool: none when the pool runs out. -/
def poolLens : Nat → Nat → Option (List Nat)
  | 0, _ => none
  | free + 1, remLen =>
    let qlen := min remLen pbufPoolBufsize
    if remLen - qlen > 0 then (poolLens free (remLen - qlen)).map (qlen :: ·) else some [qlen]

/-- What `lan9118_poll` uses: three registers, lwIP's allocator, and `netif->input`. -/
structure RxOps (S : Type) where
  rxFifoInf : S → UInt32 × S
  rxStatusFifo : S → UInt32 × S
  rxDataFifo : S → UInt32 × S
  pbufAlloc : Nat → S → Option Chain × S  -- `pbuf_alloc(PBUF_RAW, length, PBUF_POOL)`
  input : Chain → S → Int × S  -- `netif->input(p, netif)`: 0 is `ERR_OK`
  pbufFree : Nat → S → S

section
variable {S : Type} (R : RxOps S)

/-- The loop that fills one segment, with `left` of its words still to come, `i` the next of them. -/
def fillWords (words : UInt32) : Nat → Nat → Segment → Nat → S → Segment × Nat × S
  | 0, _, q, readWords, s => (q, readWords, s)
  | left + 1, i, q, readWords, s =>
    if readWords < words.toNat then
      let r := R.rxDataFifo s
      fillWords words left (i + 1) (q.store i r.1) (readWords + 1) r.2
    else (q, readWords, s)

def fillChain (words : UInt32) : List Segment → Nat → S → List Segment × Nat × S
  | [], readWords, s => ([], readWords, s)
  | q :: qs, readWords, s =>
    let chunkWords := wordCount q.len
    let r := fillWords R words chunkWords 0 q readWords s
    let rs := fillChain words qs r.2.1 r.2.2
    (r.1 :: rs.1, rs.2)

def discard : Nat → S → S
  | 0, s => s
  | n + 1, s => discard n (R.rxDataFifo s).2

/-- The body of the loop of `lan9118_poll`. -/
def pollBody (s : S) : S :=
  let (rxStatus, s) := R.rxStatusFifo s
  let rawLen := (rxStatus >>> 16) &&& 0x3FFF
  if rawLen = 0 then s
  else
    let pktLen := if rawLen > 4 then rawLen - 4 else rawLen
    let words := (rawLen + 3) / 4
    match R.pbufAlloc pktLen.toNat s with
    | (some p, s) =>
      let (segs, readWords, s) := fillChain R words p.segs 0 s
      let s := discard R (words.toNat - readWords) s
      let (err, s) := R.input { p with segs := segs } s
      if err ≠ 0 then R.pbufFree p.id s else s
    | (none, s) => discard R words.toNat s

/-- The test at the head of the loop: a status word is in the FIFO. -/
def rxPending (inf : UInt32) : Bool := (inf &&& 0x00FF0000) ≠ 0

/-- `lan9118_poll`, up to its first `n` iterations. -/
def lan9118Poll : Nat → S → S
  | 0, s => s
  | n + 1, s =>
    let (inf, s) := R.rxFifoInf s
    if rxPending inf then lan9118Poll n (pollBody R s) else s

/-- From one head of the loop to the next: an iteration, or the end of a poll and the start of the
    next. -/
def nextHead (s : S) : S :=
  let (inf, s) := R.rxFifoInf s
  if rxPending inf then pollBody R s else s

end

/-! ### The receive FIFOs -/

/-- A received frame: its body, the data words, whose first bytes are the body and the rest CRC and
    padding, and the status word, which holds the length with the CRC. -/
structure Frame where
  body : Bytes
  words : List UInt32
  status : UInt32
  body_pos : 1 ≤ body.length
  body_le : body.length ≤ 16379
  status_len : ((status >>> 16) &&& 0x3FFF).toNat = body.length + 4
  words_len : words.length = wordCount (body.length + 4)
  words_body : (bytesOf words).take body.length = body

/-- What the device adds to its FIFOs: a frame, or a status word of length 0. -/
inductive Arrival where
  | frame (f : Frame)
  | empty (status : UInt32) (len : (status >>> 16) &&& 0x3FFF = 0)

def Arrival.status : Arrival → UInt32
  | .frame f => f.status
  | .empty status _ => status

def Arrival.words : Arrival → List UInt32
  | .frame f => f.words
  | .empty .. => []

/-- How one `pbuf_alloc` goes: the free buffers of the pool, the number the chain gets, and what is in
    the memory of its segments. -/
structure Alloc where
  free : Nat
  id : Nat
  mem : Nat → Nat → UInt32

def Alloc.ok (a : Alloc) (len : Nat) : Bool := (poolLens a.free len).isSome

def Alloc.chain (a : Alloc) (len : Nat) : Option Chain :=
  (poolLens a.free len).map fun lens => ⟨a.id, lens.mapIdx fun k len => ⟨len, a.mem k, []⟩⟩

structure Rx where
  arrived : List Arrival  -- all that arrived so far
  statusFifo : List Arrival  -- that of which the status word is unread
  dataFifo : List UInt32
  arrivals : List (List Arrival)  -- what arrives before each of the next register reads
  allocs : List Alloc  -- how the next allocations go
  results : List Int  -- what `netif->input` returns
  inputs : List Chain  -- the chains handed to `netif->input`

def Rx.start (arrivals : List (List Arrival)) (allocs : List Alloc) (results : List Int) : Rx :=
  ⟨[], [], [], arrivals, allocs, results, []⟩

/-- What arrives before a register read. -/
def Rx.arrive (d : Rx) : Rx :=
  let new := d.arrivals.headD []
  { d with
    arrived := d.arrived ++ new
    statusFifo := d.statusFifo ++ new
    dataFifo := d.dataFifo ++ new.flatMap Arrival.words
    arrivals := d.arrivals.tail }

/-- `RX_FIFO_INF`: the used status words in bits 16 to 23, the used data bytes below. -/
def Rx.fifoInf (d : Rx) : UInt32 := UInt32.ofNat (65536 * (d.statusFifo.length % 256) + 4 * d.dataFifo.length % 65536)

def rxDevice : RxOps Rx where
  rxFifoInf d := (d.arrive.fifoInf, d.arrive)
  rxStatusFifo d := ((d.arrive.statusFifo.head?.map Arrival.status).getD 0,
    { d.arrive with statusFifo := d.arrive.statusFifo.tail })
  rxDataFifo d := (d.arrive.dataFifo.headD 0, { d.arrive with dataFifo := d.arrive.dataFifo.tail })
  pbufAlloc len d := (d.allocs.head?.bind (·.chain len), { d with allocs := d.allocs.tail })
  input p d := (d.results.headD 0, { d with results := d.results.tail, inputs := d.inputs ++ [p] })
  pbufFree _ d := d

/-! ### Initialisation

`lan9118_hw_init` goes on when the soft reset times out, so the FIFOs may hold packets of any length, and
the loop that drains them may leave status and data words that do not belong together. -/

/-- The loop over `RX_STATUS_FIFO` in `lan9118_hw_init`. It starts with `timeout` 100. -/
def drainStale {S : Type} (R : RxOps S) : Nat → S → S
  | 0, s => s
  | timeout + 1, s =>
    let (inf, s) := R.rxFifoInf s
    if rxPending inf ∧ timeout ≠ 0 then drainStale R timeout (R.rxStatusFifo s).2 else s

/-- A queued packet: a status word with the length in bits 16 to 29, and the data words of that length. -/
structure Packet where
  status : UInt32
  words : List UInt32
  words_len : words.length = wordCount ((status >>> 16) &&& 0x3FFF).toNat

def Packet.len (p : Packet) : Nat := ((p.status >>> 16) &&& 0x3FFF).toNat

/-- The bytes of a packet without its CRC, which a packet of up to 4 bytes does not have. -/
def Packet.body (p : Packet) : Bytes := (bytesOf p.words).take (if p.len > 4 then p.len - 4 else p.len)

/-- The FIFOs as they are, in step or not. -/
structure Fifos where
  statusFifo : List Packet  -- the packets of which the status word is unread
  dataFifo : List UInt32
  arrivals : List (List Packet)  -- what arrives before each of the next register reads
  allocs : List Alloc
  results : List Int
  inputs : List Chain

/-- The packets queued, and nothing to come. -/
def Fifos.queued (stale : List Packet) : Fifos := ⟨stale, stale.flatMap Packet.words, [], [], [], []⟩

def Fifos.arrive (d : Fifos) : Fifos :=
  let new := d.arrivals.headD []
  { d with
    statusFifo := d.statusFifo ++ new
    dataFifo := d.dataFifo ++ new.flatMap Packet.words
    arrivals := d.arrivals.tail }

def Fifos.fifoInf (d : Fifos) : UInt32 :=
  UInt32.ofNat (65536 * (d.statusFifo.length % 256) + 4 * d.dataFifo.length % 65536)

def fifoDevice : RxOps Fifos where
  rxFifoInf d := (d.arrive.fifoInf, d.arrive)
  rxStatusFifo d := ((d.arrive.statusFifo.head?.map Packet.status).getD 0,
    { d.arrive with statusFifo := d.arrive.statusFifo.tail })
  rxDataFifo d := (d.arrive.dataFifo.headD 0, { d.arrive with dataFifo := d.arrive.dataFifo.tail })
  pbufAlloc len d := (d.allocs.head?.bind (·.chain len), { d with allocs := d.allocs.tail })
  input p d := (d.results.headD 0, { d with results := d.results.tail, inputs := d.inputs ++ [p] })
  pbufFree _ d := d

/-! ### Transmitting -/

/-- A segment to be sent: its payload, and the bytes that lie in memory after it. -/
structure TxSegment where
  payload : Bytes
  beyond : Nat → UInt8

/-- The bytes from `q->payload` on. -/
def TxSegment.mem (q : TxSegment) (i : Nat) : UInt8 := q.payload.getD i (q.beyond (i - q.payload.length))

/-- The words that the loop writes for one segment. -/
def TxSegment.words (q : TxSegment) : List UInt32 := (List.range (wordCount q.payload.length)).map (loadWord q.mem)

def txTotLen (p : List TxSegment) : UInt32 := UInt32.ofNat (p.map (·.payload.length)).sum

def txCmdAFirstSeg : UInt32 := 0x2000

def txCmdALastSeg : UInt32 := 0x1000

/-- `lan9118_linkoutput`: the words that it writes to `TX_DATA_FIFO`. -/
def lan9118Linkoutput (p : List TxSegment) : List UInt32 :=
  let txCmdA := txCmdAFirstSeg ||| txCmdALastSeg ||| (txTotLen p &&& 0x7FF)
  let txCmdB := txTotLen p &&& 0x7FF
  txCmdA :: txCmdB :: p.flatMap TxSegment.words

/-- The transmit side of the device, up to `n` frames: command A, command B, then the data words of as
    many bytes as the low 11 bits of command A say. None when words are missing or left over. -/
def txFrames : Nat → List UInt32 → Option (List Bytes)
  | _, [] => some []
  | n + 1, cmdA :: _cmdB :: ws =>
    let len := (cmdA &&& 0x7FF).toNat
    if ws.length < wordCount len then none
    else (txFrames n (ws.drop (wordCount len))).map ((bytesOf (ws.take (wordCount len))).take len :: ·)
  | _, _ => none

/-- The frames that the device transmits when these words are written to its FIFO. -/
def transmitted (ws : List UInt32) : Option (List Bytes) := txFrames ws.length ws

end SpeakingClock
