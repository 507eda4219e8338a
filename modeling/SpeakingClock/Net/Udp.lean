import SpeakingClock.Net.Chksum

/-! The interface, IPv4 addresses, and the UDP control blocks of lwIP (`lwip/src/core/udp.c`,
    `ipv4/ip4_addr.c`). Addresses are kept in network order, so on this machine their first byte is the
    low one. -/

namespace SpeakingClock.Net

/-- `struct netif`, as far as the IPv4 path reads it. -/
structure Netif where
  ipAddr : UInt32
  netmask : UInt32
  gw : UInt32
  mtu : UInt16
  hwaddr : EthAddr
  idx : UInt8
  up : Bool
  linkUp : Bool
  broadcast : Bool  -- `NETIF_FLAG_BROADCAST`
  etharp : Bool  -- `NETIF_FLAG_ETHARP`
  deriving DecidableEq

/-- `ip4_addr_isany`. -/
def ip4AddrIsany (addr : UInt32) : Bool := addr = 0

/-- `ip4_addr_ismulticast`. -/
def ip4AddrIsmulticast (addr : UInt32) : Bool := addr &&& 0x000000f0 = 0x000000e0

/-- `ip4_addr_isloopback`. -/
def ip4AddrIsloopback (addr : UInt32) : Bool := addr &&& 0x000000ff = 0x0000007f

/-- `ip4_addr_net_eq`. -/
def ip4AddrNetEq (addr1 addr2 mask : UInt32) : Bool := addr1 &&& mask = addr2 &&& mask

/-- `ip4_addr_isbroadcast_u32`. -/
def ip4AddrIsbroadcast (addr : UInt32) (netif : Netif) : Bool :=
  if ~~~addr = 0 ∨ addr = 0 then true
  else if ¬netif.broadcast then false
  else if addr = netif.ipAddr then false
  else ip4AddrNetEq addr netif.ipAddr netif.netmask ∧ addr &&& ~~~netif.netmask = 0xffffffff &&& ~~~netif.netmask

inductive Err where
  | mem  -- `ERR_MEM`
  | buf  -- `ERR_BUF`
  | rte  -- `ERR_RTE`
  | use  -- `ERR_USE`
  | arg  -- `ERR_ARG`
  deriving DecidableEq, Repr

/-! ### Control blocks -/

/-- `struct udp_pcb`; `id` tells one block from another. -/
structure UdpPcb where
  id : Nat
  localIp : UInt32
  remoteIp : UInt32
  localPort : UInt16
  remotePort : UInt16
  connected : Bool  -- `UDP_FLAGS_CONNECTED`
  noChksum : Bool  -- `UDP_FLAGS_NOCHKSUM`
  ttl : UInt8
  tos : UInt8
  netifIdx : UInt8
  recv : Bool  -- whether a callback is registered
  deriving DecidableEq

structure Udp where
  pcbs : List UdpPcb  -- `udp_pcbs`, from its head
  port : UInt16  -- `udp_port`

/-- The next port of the local range. -/
def nextPort (port : UInt16) : UInt16 := if port = 0xffff then 0xc000 else port + 1

/-- The loop of `udp_new_port`, with the tries that are left of its 0x4000: the port, 0 for none, and
    what it leaves in `udp_port`. -/
def udpNewPortLoop (pcbs : List UdpPcb) : Nat → UInt16 → UInt16 × UInt16
  | 0, port => (0, port)
  | tries + 1, port =>
    if pcbs.any (·.localPort = nextPort port) then udpNewPortLoop pcbs tries (nextPort port)
    else (nextPort port, nextPort port)

/-- `udp_new_port`. -/
def Udp.newPort (u : Udp) : UInt16 × Udp :=
  let r := udpNewPortLoop u.pcbs 0x4000 u.port
  (r.1, { u with port := r.2 })

/-- `udp_pcbs` after the fields of the block `pcb` changed; a block that is not on it goes to its head. -/
def Udp.insert (u : Udp) (pcb : UdpPcb) : Udp :=
  if u.pcbs.any (·.id = pcb.id) then { u with pcbs := u.pcbs.map fun c => if c.id = pcb.id then pcb else c }
  else { u with pcbs := pcb :: u.pcbs }

/-- `udp_bind`, which returns the block as it is then. -/
def Udp.bind (u : Udp) (pcb : UdpPcb) (ipaddr : UInt32) (port : UInt16) : Except Err UdpPcb × Udp :=
  if port = 0 then
    let r := u.newPort
    if r.1 = 0 then (.error .use, r.2)
    else
      let pcb := { pcb with localIp := ipaddr, localPort := r.1 }
      (.ok pcb, r.2.insert pcb)
  -- a port that another block has, on this address or on any
  else if u.pcbs.any fun c => c.id ≠ pcb.id ∧ c.localPort = port ∧
      (c.localIp = ipaddr ∨ ip4AddrIsany ipaddr ∨ ip4AddrIsany c.localIp) then (.error .use, u)
  else
    let pcb := { pcb with localIp := ipaddr, localPort := port }
    (.ok pcb, u.insert pcb)

end SpeakingClock.Net
