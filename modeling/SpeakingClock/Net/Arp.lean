import SpeakingClock.Net.Input

/-! ARP: the cache that finds the Ethernet address of the next hop, and the packets that wait in it for
    an answer (`lwip/src/core/ipv4/etharp.c`). What the cache does with a packet does not depend on what
    the packet is. There is one interface. -/

namespace SpeakingClock.Net
open Layout

/-! ### Messages -/

/-- `struct etharp_hdr`. -/
structure EtharpHdr where
  hwtype : UInt16
  proto : UInt16
  hwlen : UInt8
  protolen : UInt8
  opcode : UInt16
  shwaddr : EthAddr
  sipaddr : UInt32
  dhwaddr : EthAddr
  dipaddr : UInt32

def ethbroadcast : EthAddr := ⟨0xff, 0xff, 0xff, 0xff, 0xff, 0xff⟩

def ethzero : EthAddr := ⟨0, 0, 0, 0, 0, 0⟩

/-- `LWIP_IANA_HWTYPE_ETHERNET`. -/
def hwtypeEthernet : UInt16 := 1

def arpRequest : UInt16 := 1

def arpReply : UInt16 := 2

/-! ### The table -/

def arpTableSize : Nat := 10

def arpQueueLen : Nat := 3

/-- `MEMP_NUM_ARP_QUEUE`. -/
def memNumArpQueue : Nat := 8

def arpMaxage : UInt16 := 300

def arpMaxpending : UInt16 := 5

def arpAgeRerequestUsedUnicast : UInt16 := arpMaxage - 30

def arpAgeRerequestUsedBroadcast : UInt16 := arpMaxage - 15

/-- `enum etharp_state`. -/
inductive EtharpState where
  | empty
  | pending
  | stable
  | stableRerequesting1
  | stableRerequesting2
  deriving DecidableEq, Repr

/-- `state >= ETHARP_STATE_STABLE`. -/
def EtharpState.isStable : EtharpState → Bool
  | .empty | .pending => false
  | .stable | .stableRerequesting1 | .stableRerequesting2 => true

/-- `struct etharp_entry`. -/
structure EtharpEntry (P : Type) where
  q : List P
  ipaddr : UInt32
  ethaddr : EthAddr
  ctime : UInt16
  state : EtharpState

/-- What the cache does, for the record: `xmit` is a call of `ethernet_output` with a packet for the next
    hop `hop` or, without one, for several hosts; `arp` is one with a message of its own. -/
inductive ArpEvent (P : Type) where
  | given (hop : UInt32) (q : P)
  | announced (ipaddr : UInt32) (ethaddr : EthAddr)
  | tick
  | xmit (hop : Option UInt32) (q : P) (src dst : EthAddr)
  | arp (hdr : EtharpHdr) (src dst : EthAddr)

/-- `arp_table` and what belongs to it. -/
structure Etharp (P : Type) where
  arpTable : Fin arpTableSize → EtharpEntry P
  etharpCachedEntry : Fin arpTableSize
  arpQueue : Nat  -- elements left in the pool `MEMP_ARP_QUEUE`
  ram : List Bool  -- whether the next calls of `pbuf_alloc` find memory
  history : List (ArpEvent P)

/-- What the functions return; `output` is what `ethernet_output` returned. -/
inductive ArpResult where
  | ok
  | error (e : Err)
  | output
  deriving DecidableEq

variable {P : Type}

/-- A cleaned out entry. -/
def EtharpEntry.cleared : EtharpEntry P := ⟨[], 0, ethzero, 0, .empty⟩

/-- The table when the program starts. -/
def Etharp.init (ram : List Bool) : Etharp P := ⟨fun _ => .cleared, ⟨0, by decide⟩, memNumArpQueue, ram, []⟩

namespace Etharp

def setEntry (s : Etharp P) (i : Fin arpTableSize) (e : EtharpEntry P) : Etharp P :=
  { s with arpTable := Function.update s.arpTable i e }

def log (s : Etharp P) (es : List (ArpEvent P)) : Etharp P := { s with history := s.history ++ es }

/-- `etharp_free_entry`, which cleans the entry out. -/
def freeEntry (s : Etharp P) (i : Fin arpTableSize) : Etharp P :=
  { s.setEntry i .cleared with arpQueue := s.arpQueue + (s.arpTable i).q.length }

/-! ### Finding an entry -/

/-- The oldest entry of a kind so far, and its age. -/
structure Oldest where
  i : Option (Fin arpTableSize)
  age : UInt16

def Oldest.note (o : Oldest) (i : Fin arpTableSize) (ctime : UInt16) : Oldest := if ctime ≥ o.age then ⟨some i, ctime⟩ else o

/-- What the sweep of `etharp_find_entry` remembers: `empty`, `old_stable`, `old_pending` and `old_queue`. -/
structure Candidates where
  empty : Option (Fin arpTableSize)
  stable : Oldest
  pending : Oldest
  queue : Oldest

def Candidates.init : Candidates := ⟨none, ⟨none, 0⟩, ⟨none, 0⟩, ⟨none, 0⟩⟩

def Candidates.note (c : Candidates) (i : Fin arpTableSize) (e : EtharpEntry P) : Candidates :=
  match e.state with
  | .empty => { c with empty := c.empty.or (some i) }
  | .pending => if e.q = [] then { c with pending := c.pending.note i e.ctime } else { c with queue := c.queue.note i e.ctime }
  | _ => { c with stable := c.stable.note i e.ctime }

/-- The sweep: the entry of `ipaddr`, or else what may be taken for it. -/
def sweep (t : Fin arpTableSize → EtharpEntry P) (ipaddr : UInt32) :
    List (Fin arpTableSize) → Candidates → Fin arpTableSize ⊕ Candidates
  | [], c => .inr c
  | i :: is, c => if (t i).state ≠ .empty ∧ ipaddr = (t i).ipaddr then .inl i else sweep t ipaddr is (c.note i (t i))

inductive FindFlag where
  | tryHard  -- `ETHARP_FLAG_TRY_HARD`
  | findOnly  -- `ETHARP_FLAG_FIND_ONLY`
  deriving DecidableEq

/-- The least destructive entry to recycle. -/
def Candidates.recycle (c : Candidates) : Option (Fin arpTableSize) := c.stable.i.or (c.pending.i.or c.queue.i)

/-- The entry `i`, which is empty, is for `ipaddr` from now on. -/
def newEntry (s : Etharp P) (i : Fin arpTableSize) (ipaddr : UInt32) : Etharp P :=
  s.setEntry i { s.arpTable i with ipaddr := ipaddr, ctime := 0 }

/-- `etharp_find_entry`: none is `ERR_MEM`. -/
def findEntry (s : Etharp P) (ipaddr : UInt32) (flags : FindFlag) : Option (Fin arpTableSize) × Etharp P :=
  match sweep s.arpTable ipaddr (List.finRange arpTableSize) .init with
  | .inl i => (some i, s)
  | .inr c =>
    if flags = .findOnly then (none, s)
    else
      match c.empty with
      | some i => (some i, s.newEntry i ipaddr)
      | none =>
        match c.recycle with
        | some i => (some i, (s.freeEntry i).newEntry i ipaddr)
        | none => (none, s)

/-! ### Sending -/

/-- The header that `etharp_raw` fills in. -/
def rawHdr (hwsrc : EthAddr) (ipsrc : UInt32) (hwdst : EthAddr) (ipdst : UInt32) (opcode : UInt16) : EtharpHdr where
  hwtype := lwipHtons hwtypeEthernet
  proto := lwipHtons ethtypeIp
  hwlen := 6
  protolen := 4
  opcode := lwipHtons opcode
  shwaddr := hwsrc
  sipaddr := ipsrc
  dhwaddr := hwdst
  dipaddr := ipdst

/-- `etharp_raw`: whether there was memory for the message. -/
def raw (s : Etharp P) (ethsrc ethdst hwsrc : EthAddr) (ipsrc : UInt32) (hwdst : EthAddr) (ipdst : UInt32)
    (opcode : UInt16) : Bool × Etharp P :=
  let ram := s.ram.tail
  if s.ram.headD false then
    (true, { s with ram := ram }.log [.arp (rawHdr hwsrc ipsrc hwdst ipdst opcode) ethsrc ethdst])
  else (false, { s with ram := ram })

/-- `etharp_request_dst`. -/
def requestDst (s : Etharp P) (netif : Netif) (ipaddr : UInt32) (hwDstAddr : EthAddr) : Bool × Etharp P :=
  s.raw netif.hwaddr hwDstAddr netif.hwaddr netif.ipAddr ethzero ipaddr arpRequest

/-- `etharp_request`. -/
def request (s : Etharp P) (netif : Netif) (ipaddr : UInt32) : Bool × Etharp P := s.requestDst netif ipaddr ethbroadcast

/-- An address that never appears in the cache. -/
def notUnicast (netif : Netif) (ipaddr : UInt32) : Bool :=
  ip4AddrIsany ipaddr ∨ ip4AddrIsbroadcast ipaddr netif ∨ ip4AddrIsmulticast ipaddr

/-- The loop of `etharp_update_arp_entry` over the packets that waited. -/
def sendQueued (hop : UInt32) (src dst : EthAddr) : List P → Etharp P → Etharp P
  | [], s => s
  | p :: q, s => sendQueued hop src dst q ({ s with arpQueue := s.arpQueue + 1 }.log [.xmit (some hop) p src dst])

/-- `etharp_update_arp_entry`. -/
def updateArpEntry (s : Etharp P) (netif : Netif) (ipaddr : UInt32) (ethaddr : EthAddr) (flags : FindFlag) :
    ArpResult × Etharp P :=
  if notUnicast netif ipaddr then (.error .arg, s)
  else
    let s := s.log [.announced ipaddr ethaddr]
    match s.findEntry ipaddr flags with
    | (none, s) => (.error .mem, s)
    | (some i, s) =>
      let e := s.arpTable i
      let s := s.setEntry i { e with q := [], ethaddr := ethaddr, ctime := 0, state := .stable }
      (.ok, sendQueued e.ipaddr netif.hwaddr ethaddr e.q s)

/-- `etharp_input`, with the header that the packet has. -/
def input (s : Etharp P) (netif : Netif) (hdr : EtharpHdr) : Etharp P :=
  if hdr.hwtype ≠ lwipHtons hwtypeEthernet ∨ hdr.hwlen ≠ 6 ∨ hdr.protolen ≠ 4 ∨ hdr.proto ≠ lwipHtons ethtypeIp then s
  else
    let forUs : Bool := ¬ip4AddrIsany netif.ipAddr ∧ hdr.dipaddr = netif.ipAddr
    let fromUs : Bool := ¬ip4AddrIsany netif.ipAddr ∧ hdr.sipaddr = netif.ipAddr
    let s := (s.updateArpEntry netif hdr.sipaddr hdr.shwaddr (if forUs then .tryHard else .findOnly)).2
    if hdr.opcode = lwipHtons arpRequest ∧ forUs ∧ ¬fromUs then
      (s.raw netif.hwaddr hdr.shwaddr netif.hwaddr netif.ipAddr hdr.shwaddr hdr.sipaddr arpReply).2
    else s

/-- `etharp_output_to_arp_index`: an entry that is about to expire is asked for again. -/
def outputToArpIndex (s : Etharp P) (netif : Netif) (q : P) (i : Fin arpTableSize) : ArpResult × Etharp P :=
  let e := s.arpTable i
  let r :=
    if e.state = .stable ∧ e.ctime ≥ arpAgeRerequestUsedBroadcast then s.request netif e.ipaddr
    else if e.state = .stable ∧ e.ctime ≥ arpAgeRerequestUsedUnicast then s.requestDst netif e.ipaddr e.ethaddr
    else (false, s)
  let s := if r.1 then r.2.setEntry i { e with state := .stableRerequesting1 } else r.2
  (.output, s.log [.xmit (some e.ipaddr) q netif.hwaddr e.ethaddr])

/-- The part of `etharp_query` that puts the packet at the end of the entry's queue. With a full queue
    the first packet of it goes. -/
def enqueue (s : Etharp P) (i : Fin arpTableSize) (q : P) : ArpResult × Etharp P :=
  if s.arpQueue = 0 then (.error .mem, s)
  else
    let e := s.arpTable i
    if e.q.length ≥ arpQueueLen then (.ok, s.setEntry i { e with q := (e.q ++ [q]).tail })
    else (.ok, { s.setEntry i { e with q := e.q ++ [q] } with arpQueue := s.arpQueue - 1 })

/-- `etharp_query`. `taken` says whether the packet could be taken over: it can, unless it has to be
    copied and there is no memory for the copy. -/
def query (s : Etharp P) (netif : Netif) (ipaddr : UInt32) (q : Option P) (taken : Bool) : ArpResult × Etharp P :=
  if notUnicast netif ipaddr then (.error .arg, s)
  else
    match s.findEntry ipaddr .tryHard with
    | (none, s) => (.error .mem, s)
    | (some i, s) =>
      let isNewEntry : Bool := (s.arpTable i).state = .empty
      let s := if isNewEntry then s.setEntry i { s.arpTable i with state := .pending } else s
      let r := if isNewEntry ∨ q.isNone then s.request netif ipaddr else (false, s)
      let s :=
        -- a new request for an entry that was pending: it must not expire too fast
        if r.1 ∧ (s.arpTable i).state = .pending ∧ ¬isNewEntry then r.2.setEntry i { s.arpTable i with ctime := 0 } else r.2
      match q with
      | none => (if r.1 then .ok else .error .mem, s)
      | some q =>
        if (s.arpTable i).state.isStable then
          (.output, { s with etharpCachedEntry := i }.log [.xmit (some ipaddr) q netif.hwaddr (s.arpTable i).ethaddr])
        else if taken then s.enqueue i q
        else (.error .mem, s)

/-- `ip4_addr_islinklocal`. -/
def ip4AddrIslinklocal (addr : UInt32) : Bool := addr &&& 0x0000ffff = 0x0000fea9

/-- The host that a packet to `ipaddr` is handed to on the link: none when there is no route. -/
def nextHop (netif : Netif) (ipaddr : UInt32) : Option UInt32 :=
  if ¬ip4AddrNetEq ipaddr netif.ipAddr netif.netmask ∧ ¬ip4AddrIslinklocal ipaddr then
    if ip4AddrIsany netif.gw then none else some netif.gw
  else some ipaddr

/-- The Ethernet address of an IP multicast address. -/
def multicastAddr (ipaddr : UInt32) : EthAddr :=
  ⟨0x01, 0x00, 0x5e, (ipaddr >>> 8).toUInt8 &&& 0x7f, (ipaddr >>> 16).toUInt8, (ipaddr >>> 24).toUInt8⟩

/-- `etharp_output`. -/
def output (s : Etharp P) (netif : Netif) (q : P) (ipaddr : UInt32) (taken : Bool) : ArpResult × Etharp P :=
  if ip4AddrIsbroadcast ipaddr netif then (.output, s.log [.xmit none q netif.hwaddr ethbroadcast])
  else if ip4AddrIsmulticast ipaddr then (.output, s.log [.xmit none q netif.hwaddr (multicastAddr ipaddr)])
  else
    match nextHop netif ipaddr with
    | none => (.error .rte, s)
    | some dstAddr =>
      let s := s.log [.given dstAddr q]
      let found := fun i => (s.arpTable i).state.isStable ∧ dstAddr = (s.arpTable i).ipaddr
      if found s.etharpCachedEntry then s.outputToArpIndex netif q s.etharpCachedEntry
      else
        match (List.finRange arpTableSize).find? found with
        | some i => { s with etharpCachedEntry := i }.outputToArpIndex netif q i
        | none => s.query netif dstAddr (some q) taken

/-! ### Time -/

/-- The body of the loop in `etharp_tmr`. -/
def tmrEntry (netif : Netif) (s : Etharp P) (i : Fin arpTableSize) : Etharp P :=
  let e := { s.arpTable i with ctime := (s.arpTable i).ctime + 1 }
  match e.state with
  | .empty => s
  | state =>
    let s := s.setEntry i e
    if e.ctime ≥ arpMaxage ∨ state = .pending ∧ e.ctime ≥ arpMaxpending then s.freeEntry i
    else
      match state with
      | .stableRerequesting1 => s.setEntry i { e with state := .stableRerequesting2 }
      | .stableRerequesting2 => s.setEntry i { e with state := .stable }
      | .pending => (s.request netif e.ipaddr).2
      | _ => s

/-- `etharp_tmr`, once a second. -/
def tmr (s : Etharp P) (netif : Netif) : Etharp P :=
  (List.finRange arpTableSize).foldl (tmrEntry netif) (s.log [.tick])

/-- `etharp_cleanup_netif`. -/
def cleanupNetif (s : Etharp P) : Etharp P :=
  (List.finRange arpTableSize).foldl (fun s i => if (s.arpTable i).state ≠ .empty then s.freeEntry i else s) s

/-! ### Runs -/

/-- What calls ARP: a message arrived, a packet is to go out, the interface asks for an address, a second
    has passed, the interface goes down, and the memory that there will be. -/
inductive Action (P : Type) where
  | input (netif : Netif) (hdr : EtharpHdr)
  | output (netif : Netif) (q : P) (ipaddr : UInt32) (taken : Bool)
  | query (netif : Netif) (ipaddr : UInt32)
  | request (netif : Netif) (ipaddr : UInt32)
  | tmr (netif : Netif)
  | cleanup
  | memory (ram : List Bool)

def step (s : Etharp P) : Action P → Option (Etharp P)
  | .input netif hdr => some (s.input netif hdr)
  | .output netif q ipaddr taken => some (s.output netif q ipaddr taken).2
  | .query netif ipaddr => some (s.query netif ipaddr none true).2
  | .request netif ipaddr => some (s.request netif ipaddr).2
  | .tmr netif => some (s.tmr netif)
  | .cleanup => some s.cleanupNetif
  | .memory ram => some { s with ram := ram }

end Etharp

end SpeakingClock.Net
