import SpeakingClock.Net.Udp

/-! A datagram on its way out: `udp_sendto` and what it calls, down to `netif->output`, and
    `ethernet_output` below that (`lwip/src/core/udp.c`, `ipv4/ip4.c`, `netif/ethernet.c`). Which Ethernet
    address a datagram goes to is decided in between, by ARP. -/

namespace SpeakingClock.Net

def ipProtoUdp : UInt8 := 17

def udpHlen : UInt16 := 8

def ipHlen : UInt16 := 20

def sizeofEthHdr : UInt16 := 14

def ethtypeIp : UInt16 := 0x0800

def ethtypeArp : UInt16 := 0x0806

/-- `ip4_route` with one interface. -/
def ip4Route (netif : Netif) (dest : UInt32) : Bool :=
  netif.up ∧ netif.linkUp ∧ ¬ip4AddrIsany netif.ipAddr ∧ ¬ip4AddrIsloopback dest

/-- What `ip4_output_if_src` ends in. -/
inductive Sent where
  | output (p : Packet) (dest : UInt32)  -- `netif->output`
  | frag (p : Packet) (dest : UInt32)  -- `ip4_frag`

/-- The header that `ip4_output_if_src` puts in front of a packet of `totLen` bytes, the header counted,
    before its checksum is known. -/
def ipHeader (totLen : UInt16) (src dest : UInt32) (ttl tos proto : UInt8) (ipId : UInt16) : IpHdr :=
  { vHl := ((4 : UInt8) <<< 4) ||| (ipHlen / 4).toUInt8
    tos := tos
    len := lwipHtons totLen
    id := lwipHtons ipId
    offset := 0
    ttl := ttl
    proto := proto
    chksum := 0
    src := src
    dest := dest }

/-- The checksum that is added up as the fields are set, `CHECKSUM_GEN_IP_INLINE`. -/
def inlineChksum (h : IpHdr) : UInt16 :=
  let sum : UInt32 := (lwipHtons (h.proto.toUInt16 ||| (h.ttl.toUInt16 <<< 8))).toUInt32
    + low16 h.dest + (h.dest >>> 16)
    + (lwipHtons (h.tos.toUInt16 ||| (h.vHl.toUInt16 <<< 8))).toUInt32
    + h.len.toUInt32 + h.id.toUInt32
    + low16 h.src + (h.src >>> 16)
  let sum := (sum >>> 16) + low16 sum
  let sum := (sum >>> 16) + sum
  (~~~sum).toUInt16

/-- `ip4_output_if_src`, with the next `ip_id`. -/
def ip4OutputIfSrc (netif : Netif) (p : Packet) (src dest : UInt32) (ttl tos proto : UInt8) (ipId : UInt16) :
    Except Err Sent × UInt16 :=
  match p.addHeader ipHlen with
  | none => (.error .buf, ipId)
  | some p =>
    let h := ipHeader p.totLen src dest ttl tos proto ipId
    let p := p.setHdr ipHdr 0 { h with chksum := inlineChksum h }
    if netif.mtu ≠ 0 ∧ p.totLen > netif.mtu then (.ok (.frag p dest), ipId + 1)
    else (.ok (.output p dest), ipId + 1)

/-- `pbuf_chain(q, p)`. -/
def Packet.prepend (q : Pbuf) (p : Packet) (h : q.len.toNat + p.totLen.toNat < 2 ^ 16) : Packet where
  first := q
  next := p.chain
  totLen := q.len + p.totLen
  totLen_eq := by
    have htot := p.totLen_eq
    rw [UInt16.toNat_add, Nat.mod_eq_of_lt h, htot]
    rfl

/-- A buffer of the packet's own. -/
def Packet.single (q : Pbuf) : Packet where
  first := q
  next := []
  totLen := q.len
  totLen_eq := by simp [chainLen]

/-- A buffer from `pbuf_alloc(layer, length, PBUF_RAM)`, with whatever its memory holds. -/
structure RamPbuf (layer length : UInt16) where
  q : Pbuf
  len_eq : q.len = length
  contiguous : q.contiguous = true
  room : q.start + layer.toNat ≤ q.payload

/-- `PBUF_IP`: room for an Ethernet and an IP header. -/
def pbufIp : UInt16 := 34

/-- The packet with room for a UDP header in front of it: in the packet's first buffer, or else in a
    buffer of its own, `ram`. -/
def addUdpHeader (p : Packet) (ram : Option (RamPbuf pbufIp udpHlen)) : Option Packet :=
  match p.addHeader udpHlen with
  | some p => some p
  | none =>
    match ram with
    | none => none
    | some r =>
      if p.totLen = 0 then some (Packet.single r.q)
      else if h : r.q.len.toNat + p.totLen.toNat < 2 ^ 16 then some (Packet.prepend r.q p h)
      else none

/-- The UDP part of `udp_sendto_if_src`: the header before `q`'s payload, with its checksum. -/
def udpHeaderSet (q : Packet) (localPort dstPort : UInt16) (srcIp dstIp : UInt32) (noChksum : Bool) : Packet :=
  let h : UdpHdr := ⟨lwipHtons localPort, lwipHtons dstPort, lwipHtons q.totLen, 0⟩
  let q := q.setHdr udpHdr 0 h
  if noChksum then q
  else
    let udpchksum := ipChksumPseudo q.chain ipProtoUdp q.totLen srcIp dstIp
    -- zero means 'no checksum'
    q.setHdr udpHdr 0 { h with chksum := if udpchksum = 0 then 0xffff else udpchksum }

structure Host where
  netif : Netif
  udp : Udp
  ipId : UInt16

/-- `udp_sendto_if_src`, with `ram` what `pbuf_alloc` gives when the packet has no room for a header. -/
def udpSendtoIfSrc (s : Host) (pcb : UdpPcb) (p : Packet) (dstIp : UInt32) (dstPort : UInt16) (srcIp : UInt32)
    (ram : Option (RamPbuf pbufIp udpHlen)) : Except Err Sent × Host :=
  let bound := if pcb.localPort = 0 then s.udp.bind pcb pcb.localIp pcb.localPort else (.ok pcb, s.udp)
  let s := { s with udp := bound.2 }
  match bound.1 with
  | .error e => (.error e, s)
  | .ok pcb =>
    if p.totLen + udpHlen < p.totLen then (.error .mem, s)
    else
      match addUdpHeader p ram with
      | none => (.error .mem, s)
      | some q =>
        let q := udpHeaderSet q pcb.localPort dstPort srcIp dstIp pcb.noChksum
        let r := ip4OutputIfSrc s.netif q srcIp dstIp pcb.ttl pcb.tos ipProtoUdp s.ipId
        (r.1, { s with ipId := r.2 })

/-- `udp_sendto_if`: the source address. -/
def udpSendtoIf (s : Host) (pcb : UdpPcb) (p : Packet) (dstIp : UInt32) (dstPort : UInt16)
    (ram : Option (RamPbuf pbufIp udpHlen)) : Except Err Sent × Host :=
  if ip4AddrIsany pcb.localIp ∨ ip4AddrIsmulticast pcb.localIp then
    udpSendtoIfSrc s pcb p dstIp dstPort s.netif.ipAddr ram
  else if pcb.localIp ≠ s.netif.ipAddr then (.error .rte, s)
  else udpSendtoIfSrc s pcb p dstIp dstPort pcb.localIp ram

/-- Whether `udp_sendto` finds an interface: the one the block is bound to, or a route. -/
def udpRoute (netif : Netif) (pcb : UdpPcb) (dstIp : UInt32) : Bool :=
  if pcb.netifIdx ≠ 0 then pcb.netifIdx = netif.idx else ip4Route netif dstIp

/-- `udp_sendto`. -/
def udpSendto (s : Host) (pcb : UdpPcb) (p : Packet) (dstIp : UInt32) (dstPort : UInt16)
    (ram : Option (RamPbuf pbufIp udpHlen)) : Except Err Sent × Host :=
  if udpRoute s.netif pcb dstIp then udpSendtoIf s pcb p dstIp dstPort ram else (.error .rte, s)

end SpeakingClock.Net
