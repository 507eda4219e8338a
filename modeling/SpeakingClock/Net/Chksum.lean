import SpeakingClock.Net.Packet

/-! The Internet checksum (`lwip/src/core/inet_chksum.c`, algorithm 2), on a little-endian machine. -/

namespace SpeakingClock.Net

/-- `FOLD_U32T`. -/
def foldU32T (u : UInt32) : UInt32 := (u >>> 16) + (u &&& 0x0000ffff)

/-- `SWAP_BYTES_IN_WORD`. -/
def swapBytesInWord (w : UInt32) : UInt32 := ((w &&& 0xff) <<< 8) ||| ((w &&& 0xff00) >>> 8)

/-- `u & 0xffffUL`. -/
def low16 (u : UInt32) : UInt32 := u &&& 0xffff

/-- The loop that adds the bulk of the data, two bytes at a time, and what it leaves over. -/
def addBulk : UInt32 → Bytes → UInt32 × Bytes
  | sum, a :: b :: data => addBulk (sum + (Layout.u16.dec [a, b]).toUInt32) data
  | sum, data => (sum, data)

/-- `lwip_standard_chksum` of the data at the address `dataptr`. -/
def lwipStandardChksum (dataptr : Int) (data : Bytes) : UInt16 :=
  let odd := dataptr % 2 = 1
  -- the byte before the first aligned address goes to the high half of `t`
  let high := if odd then data.headD 0 else 0
  let bulk := addBulk 0 (if odd then data.tail else data)
  let t := Layout.u16.dec [bulk.2.headD 0, high]
  let sum := foldU32T (foldU32T (bulk.1 + t.toUInt32))
  (if odd then swapBytesInWord sum else sum).toUInt16

/-- `inet_chksum`. -/
def inetChksum (dataptr : Int) (data : Bytes) : UInt16 := ~~~(lwipStandardChksum dataptr data)

/-- The loop over a chain that `inet_chksum_pbuf` and `inet_cksum_pseudo_base` share, with `acc` and
    `swapped` as it goes. -/
def sumChain : UInt32 → Bool → List Pbuf → UInt32 × Bool
  | acc, swapped, [] => (acc, swapped)
  | acc, swapped, q :: qs =>
    let acc := foldU32T (acc + (lwipStandardChksum q.payload q.bytes).toUInt32)
    if q.len.toNat % 2 ≠ 0 then sumChain (swapBytesInWord acc) (!swapped) qs else sumChain acc swapped qs

/-- The sum of a chain, with its bytes back in place. -/
def chainSum (acc : UInt32) (p : List Pbuf) : UInt32 :=
  let r := sumChain acc false p
  if r.2 then swapBytesInWord r.1 else r.1

/-- `inet_chksum_pbuf`. -/
def inetChksumPbuf (p : List Pbuf) : UInt16 := (~~~low16 (chainSum 0 p)).toUInt16

/-- `inet_cksum_pseudo_base`. -/
def inetCksumPseudoBase (p : List Pbuf) (proto : UInt8) (protoLen : UInt16) (acc : UInt32) : UInt16 :=
  let acc := chainSum acc p + (lwipHtons proto.toUInt16).toUInt32 + (lwipHtons protoLen).toUInt32
  (~~~low16 (foldU32T (foldU32T acc))).toUInt16

/-- `(addr >> 16) & 0xffffUL`. -/
def high16 (addr : UInt32) : UInt32 := (addr >>> 16) &&& 0xffff

/-- `inet_chksum_pseudo`, which `ip_chksum_pseudo` is without IPv6. -/
def ipChksumPseudo (p : List Pbuf) (proto : UInt8) (protoLen : UInt16) (src dest : UInt32) : UInt16 :=
  inetCksumPseudoBase p proto protoLen (foldU32T (foldU32T (low16 src + high16 src + low16 dest + high16 dest)))

end SpeakingClock.Net
