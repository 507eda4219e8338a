import SpeakingClock.Net.Output

/-! A frame on its way in: `ethernet_input` (`lwip/src/netif/ethernet.c`), `ip4_input` (`ipv4/ip4.c`) and
    `udp_input` (`udp.c`). Fragments are put together by `ip4_reass`, a parameter here. -/

namespace SpeakingClock.Net

def ipProtoIcmp : UInt8 := 1

/-- `LWIP_IANA_PORT_DHCP_CLIENT`. -/
def dhcpClientPort : UInt16 := 68

/-- What the layers below note about the packet that is being handled, `ip_data`. -/
structure IpData where
  src : UInt32
  dest : UInt32
  hdr : IpHdr
  hlen : UInt16  -- `current_ip_header_tot_len`

/-- Where a received packet ends up. -/
inductive Outcome where
  | freed
  | arp (p : Packet)  -- `etharp_input`
  | kept (p : Packet)  -- by `ip4_reass`
  | recv (pcb : UdpPcb) (p : Packet) (addr : UInt32) (port : UInt16)  -- the callback of a block
  | portUnreach (p : Packet)  -- `icmp_port_unreach`, at the IP header
  | icmp (d : IpData) (p : Packet)  -- `icmp_input`
  | protoUnreach (p : Packet)  -- `icmp_dest_unreach(p, ICMP_DUR_PROTO)`, at the IP header

/-! ### UDP -/

/-- `udp_input_local_match`. -/
def udpInputLocalMatch (netif : Netif) (dest : UInt32) (broadcast : Bool) (pcb : UdpPcb) : Bool :=
  if pcb.netifIdx ≠ 0 ∧ pcb.netifIdx ≠ netif.idx then false
  else if broadcast then
    ip4AddrIsany pcb.localIp ∨ dest = 0xffffffff ∨ ip4AddrNetEq pcb.localIp dest netif.netmask
  else ip4AddrIsany pcb.localIp ∨ pcb.localIp = dest

/-- The blocks that `udp_input` takes a datagram for: the first one that matches it in full, and the
    first unconnected one that matches its local end. -/
def udpSearch (local? full better : UdpPcb → Bool) : List UdpPcb → Option UdpPcb → Option UdpPcb × Option UdpPcb
  | [], unconPcb => (none, unconPcb)
  | pcb :: pcbs, unconPcb =>
    if local? pcb then
      let unconPcb :=
        if pcb.connected then unconPcb
        else match unconPcb with
          | none => some pcb
          -- the global broadcast address: a block on the interface's own address is a better match
          | some u => if ¬better u ∧ better pcb then some pcb else some u
      if full pcb then (some pcb, unconPcb) else udpSearch local? full better pcbs unconPcb
    else udpSearch local? full better pcbs unconPcb

/-- `udp_input`. -/
def udpInput (netif : Netif) (u : Udp) (d : IpData) (p : Packet) : Outcome × Udp :=
  if p.first.len < udpHlen then (.freed, u)
  else
    let udphdr := p.hdr udpHdr 0
    let broadcast := ip4AddrIsbroadcast d.dest netif
    let src := lwipHtons udphdr.src
    let dest := lwipHtons udphdr.dest
    let r := udpSearch (fun pcb => pcb.localPort = dest ∧ udpInputLocalMatch netif d.dest broadcast pcb)
      (fun pcb => pcb.remotePort = src ∧ (ip4AddrIsany pcb.remoteIp ∨ pcb.remoteIp = d.src))
      (fun pcb => broadcast ∧ d.dest = 0xffffffff ∧ pcb.localIp = netif.ipAddr) u.pcbs none
    -- a block that matches in full moves to the front
    let u := match r.1 with
      | some pcb => { u with pcbs := pcb :: u.pcbs.erase pcb }
      | none => u
    let pcb := r.1.or r.2
    if pcb.isSome ∨ netif.ipAddr = d.dest then
      if udphdr.chksum ≠ 0 ∧ ipChksumPseudo p.chain ipProtoUdp p.totLen d.src d.dest ≠ 0 then (.freed, u)
      else
        match p.removeHeader udpHlen with
        | none => (.freed, u)
        | some p =>
          match pcb with
          | some pcb => if pcb.recv then (.recv pcb p d.src src, u) else (.freed, u)
          | none =>
            if ¬broadcast ∧ ¬ip4AddrIsmulticast d.dest then
              match p.addHeaderImpl (d.hlen + udpHlen) true with
              | some p => (.portUnreach p, u)
              | none => (.portUnreach p, u)
            else (.freed, u)
    else (.freed, u)

/-! ### IPv4 -/

/-- `ip4_input_accept`. -/
def ip4InputAccept (netif : Netif) (dest : UInt32) : Bool :=
  netif.up ∧ ¬ip4AddrIsany netif.ipAddr ∧ (dest = netif.ipAddr ∨ ip4AddrIsbroadcast dest netif)

/-- Whether the interface is the one that a packet to `dest` is for. -/
def ip4ForUs (netif : Netif) (dest : UInt32) : Bool :=
  if ip4AddrIsmulticast dest then netif.up ∧ ¬ip4AddrIsany netif.ipAddr else ip4InputAccept netif dest

/-- `IPH_HL_BYTES`. -/
def iphHlBytes (h : IpHdr) : UInt16 := ((h.vHl &&& 0x0f) * 4).toUInt16

/-- The last part of `ip4_input`: `p` is whole, and goes to the protocol that its header names. -/
def ip4Deliver (netif : Netif) (u : Udp) (src dest : UInt32) (iphdrHlen : UInt16) (p : Packet) : Outcome × Udp :=
  let iphdr := p.hdr ipHdr 0
  let d : IpData := ⟨src, dest, iphdr, iphHlBytes iphdr⟩
  let p := (p.removeHeader iphdrHlen).getD p
  if iphdr.proto = ipProtoUdp then udpInput netif u d p
  else if iphdr.proto = ipProtoIcmp then (.icmp d p, u)
  else if ¬ip4AddrIsbroadcast dest netif ∧ ¬ip4AddrIsmulticast dest then
    (.protoUnreach ((p.addHeaderImpl iphdrHlen true).getD p), u)
  else (.freed, u)

/-- The part of `ip4_input` behind the checks of the header. -/
def ip4Accept (netif : Netif) (u : Udp) (ip4Reass : Packet → Option Packet) (iphdr : IpHdr) (iphdrHlen : UInt16)
    (p : Packet) : Outcome × Udp :=
  let src := iphdr.src
  let dest := iphdr.dest
  let forUs := ip4ForUs netif dest
  -- DHCP messages are addressed by the link layer
  let dhcp := ¬forUs ∧ iphdr.proto = ipProtoUdp ∧ (p.hdr udpHdr iphdrHlen.toNat).dest = lwipHtons dhcpClientPort
  if ¬dhcp ∧ ¬ip4AddrIsany src ∧ (ip4AddrIsbroadcast src netif ∨ ip4AddrIsmulticast src) then (.freed, u)
  else if ¬forUs ∧ ¬dhcp then (.freed, u)
  -- more fragments, or an offset
  else if iphdr.offset &&& lwipHtons (0x1fff ||| 0x2000) ≠ 0 then
    match ip4Reass p with
    | none => (.kept p, u)
    | some p => ip4Deliver netif u src dest iphdrHlen p
  else ip4Deliver netif u src dest iphdrHlen p

/-- `ip4_input`. -/
def ip4Input (netif : Netif) (u : Udp) (ip4Reass : Packet → Option Packet) (p : Packet) : Outcome × Udp :=
  let iphdr := p.hdr ipHdr 0
  if iphdr.vHl >>> 4 ≠ 4 then (.freed, u)
  else
    let iphdrHlen := iphHlBytes iphdr
    let iphdrLen := lwipHtons iphdr.len
    -- frames are padded to 60 bytes
    let p := if iphdrLen < p.totLen then p.realloc iphdrLen else p
    if iphdrHlen > p.first.len ∨ iphdrLen > p.totLen ∨ iphdrHlen < ipHlen then (.freed, u)
    else if inetChksum p.first.payload (Memory.load p.first.mem p.first.payload iphdrHlen.toNat) ≠ 0 then (.freed, u)
    else ip4Accept netif u ip4Reass iphdr iphdrHlen p

/-! ### Ethernet -/

/-- `ethernet_input`. -/
def ethernetInput (netif : Netif) (u : Udp) (ip4Reass : Packet → Option Packet) (p : Packet) : Outcome × Udp :=
  if p.first.len ≤ sizeofEthHdr then (.freed, u)
  else
    let type := (p.hdr ethHdr 0).type
    if type = lwipHtons ethtypeIp then
      if ¬netif.etharp then (.freed, u)
      else match p.removeHeader sizeofEthHdr with
        | none => (.freed, u)
        | some p => ip4Input netif u ip4Reass p
    else if type = lwipHtons ethtypeArp then
      if ¬netif.etharp then (.freed, u)
      else match p.removeHeader sizeofEthHdr with
        | none => (.freed, u)
        | some p => (.arp p, u)
    else (.freed, u)

end SpeakingClock.Net
