import SpeakingClock.Basic
import SpeakingClock.Lib.Layout

/-! lwIP's packet buffers (`lwip/src/core/pbuf.c`) and the headers that its layers put in front of a
    packet. Each buffer has a memory of its own; `payload` is an address in it, which the layers move
    down to add a header and up to remove one. -/

namespace SpeakingClock.Net
open Memory

/-! ### Byte order -/

/-- `lwip_htons`, which is also `lwip_ntohs` and `PP_HTONS`. -/
def lwipHtons (n : UInt16) : UInt16 := ((n &&& 0x00ff) <<< 8) ||| ((n &&& 0xff00) >>> 8)

/-- The two halves of a word that a mask and a shift take. -/
theorem toNat_swap (n : Nat) : ((n &&& 0xff) <<< 8) ||| ((n &&& 0xff00) >>> 8) = 256 * (n % 256) + n / 256 % 256 := by
  have hlow : n &&& 0xff = n % 256 := Nat.and_two_pow_sub_one_eq_mod n 8
  have hhigh : (n &&& 0xff00) >>> 8 = n / 256 % 256 := by
    rw [Nat.shiftRight_and_distrib, Nat.shiftRight_eq_div_pow]
    exact Nat.and_two_pow_sub_one_eq_mod (n / 2 ^ 8) 8
  rw [hlow, hhigh, ← Nat.shiftLeft_add_eq_or_of_lt (by omega), Nat.shiftLeft_eq]
  omega

theorem toNat_lwipHtons (n : UInt16) : (lwipHtons n).toNat = 256 * (n.toNat % 256) + n.toNat / 256 := by
  have hn := n.toNat_lt
  have hsmall : ((n &&& 0x00ff) <<< 8).toNat = (n.toNat &&& 0xff) <<< 8 := by
    rw [UInt16.toNat_shiftLeft, UInt16.toNat_and]
    have hlow : n.toNat &&& 0xff = n.toNat % 256 := Nat.and_two_pow_sub_one_eq_mod n.toNat 8
    simp only [UInt16.toNat_ofNat]
    norm_num
    rw [hlow, Nat.shiftLeft_eq]
    omega
  rw [lwipHtons, UInt16.toNat_or, hsmall, UInt16.toNat_shiftRight, UInt16.toNat_and]
  have := toNat_swap n.toNat
  simp only [UInt16.toNat_ofNat]
  norm_num at this ⊢
  rw [this]
  omega

@[simp] theorem lwipHtons_lwipHtons (n : UInt16) : lwipHtons (lwipHtons n) = n := by
  have hn := n.toNat_lt
  apply UInt16.toNat_inj.mp
  rw [toNat_lwipHtons, toNat_lwipHtons]
  omega

/-! ### Buffers -/

/-- One `struct pbuf` of a chain, with the memory around it. -/
structure Pbuf where
  mem : Int → UInt8
  payload : Int
  len : UInt16
  contiguous : Bool  -- `PBUF_TYPE_FLAG_STRUCT_DATA_CONTIGUOUS`
  start : Int  -- `(u8_t *)p + SIZEOF_STRUCT_PBUF`

def Pbuf.bytes (q : Pbuf) : Bytes := load q.mem q.payload q.len.toNat

@[simp] theorem Pbuf.length_bytes (q : Pbuf) : q.bytes.length = q.len.toNat := length_load _ _ _

/-- How many bytes the buffers of a chain hold. -/
def chainLen (qs : List Pbuf) : Nat := (qs.map (·.len.toNat)).sum

/-- A chain of buffers. `tot_len` of its first buffer is the length of them all. -/
structure Packet where
  first : Pbuf
  next : List Pbuf
  totLen : UInt16
  totLen_eq : totLen.toNat = chainLen (first :: next)

def Packet.chain (p : Packet) : List Pbuf := p.first :: p.next

def Packet.bytes (p : Packet) : Bytes := p.chain.flatMap Pbuf.bytes

theorem length_flatMap_bytes (qs : List Pbuf) : (qs.flatMap Pbuf.bytes).length = chainLen qs := by
  simp only [List.length_flatMap, chainLen, Pbuf.length_bytes]

@[simp] theorem Packet.length_bytes (p : Packet) : p.bytes.length = p.totLen.toNat := by
  rw [p.totLen_eq]
  exact length_flatMap_bytes _

theorem Packet.len_le (p : Packet) : p.first.len.toNat ≤ p.totLen.toNat := by
  rw [p.totLen_eq]
  simp [chainLen]

/-- `pbuf_add_header_impl`: none when it fails. -/
def Packet.addHeaderImpl (p : Packet) (headerSizeIncrement : UInt16) (force : Bool) : Option Packet :=
  if headerSizeIncrement = 0 then some p
  -- tot_len must not wrap
  else if wrap : headerSizeIncrement + p.totLen < headerSizeIncrement then none
  else
    let payload := p.first.payload - headerSizeIncrement.toNat
    if p.first.contiguous ∧ payload < p.first.start then none
    else if ¬p.first.contiguous ∧ ¬force then none
    else some { p with
      first := { p.first with payload := payload, len := p.first.len + headerSizeIncrement }
      totLen := p.totLen + headerSizeIncrement
      totLen_eq := by
        have htot := p.totLen_eq
        have hlen := p.len_le
        rw [UInt16.lt_iff_toNat_lt, UInt16.toNat_add] at wrap
        have hn := headerSizeIncrement.toNat_lt
        have ht := p.totLen.toNat_lt
        simp only [chainLen, List.map_cons, List.sum_cons, UInt16.toNat_add] at htot ⊢
        omega }

/-- `pbuf_add_header`. -/
def Packet.addHeader (p : Packet) (headerSizeIncrement : UInt16) : Option Packet :=
  p.addHeaderImpl headerSizeIncrement false

/-- `pbuf_remove_header`. -/
def Packet.removeHeader (p : Packet) (headerSizeDecrement : UInt16) : Option Packet :=
  if headerSizeDecrement = 0 then some p
  else if le : headerSizeDecrement ≤ p.first.len then
    some { p with
      first := { p.first with
        payload := p.first.payload + headerSizeDecrement.toNat
        len := p.first.len - headerSizeDecrement }
      totLen := p.totLen - headerSizeDecrement
      totLen_eq := by
        have htot := p.totLen_eq
        have hlen := p.len_le
        have hle := UInt16.le_iff_toNat_le.mp le
        simp only [chainLen, List.map_cons, List.sum_cons] at htot ⊢
        rw [UInt16.toNat_sub_of_le _ _ (UInt16.le_iff_toNat_le.mpr (by omega)), UInt16.toNat_sub_of_le _ _ le]
        omega }
  else none

/-- The buffers that `pbuf_realloc` leaves of a chain: `rem_len` bytes, which the chain has. -/
def realloc : Nat → Pbuf → List Pbuf → Pbuf × List Pbuf
  | remLen, q, [] => ({ q with len := UInt16.ofNat remLen }, [])
  | remLen, q, r :: rs =>
    if remLen > q.len.toNat then (q, (realloc (remLen - q.len.toNat) r rs).1 :: (realloc (remLen - q.len.toNat) r rs).2)
    else ({ q with len := UInt16.ofNat remLen }, [])

theorem chainLen_realloc {remLen : Nat} {q : Pbuf} {rs : List Pbuf} (h : remLen < 2 ^ 16)
    (hle : remLen ≤ chainLen (q :: rs)) : chainLen ((realloc remLen q rs).1 :: (realloc remLen q rs).2) = remLen := by
  induction rs generalizing remLen q with
  | nil =>
    simp only [realloc, chainLen, List.map_cons, List.map_nil, List.sum_cons, List.sum_nil, UInt16.toNat_ofNat']
    omega
  | cons r rs ih =>
    unfold realloc
    split
    · have hrest := @ih (remLen - q.len.toNat) r (by omega)
        (by simp only [chainLen, List.map_cons, List.sum_cons] at hle ⊢; omega)
      simp only [chainLen, List.map_cons, List.sum_cons] at hrest ⊢
      omega
    · simp only [chainLen, List.map_cons, List.map_nil, List.sum_cons, List.sum_nil, UInt16.toNat_ofNat']
      omega

/-- `pbuf_realloc`. -/
def Packet.realloc (p : Packet) (newLen : UInt16) : Packet :=
  if le : newLen ≥ p.totLen then p
  else
    { first := (Net.realloc newLen.toNat p.first p.next).1
      next := (Net.realloc newLen.toNat p.first p.next).2
      totLen := newLen
      totLen_eq := by
        have hle := UInt16.not_le.mp le
        rw [UInt16.lt_iff_toNat_lt, p.totLen_eq] at hle
        rw [chainLen_realloc newLen.toNat_lt (by omega)] }

/-! ### What they hold afterwards -/

theorem Packet.bytes_eq (p : Packet) : p.bytes = p.first.bytes ++ p.next.flatMap Pbuf.bytes := rfl

theorem load_add (mem : Int → UInt8) (a : Int) (n m : Nat) : load mem a (n + m) = load mem a n ++ load mem (a + n) m := by
  simp only [load, List.range_add, List.map_append, List.map_map]
  congr 1
  apply List.map_congr_left
  intro i _
  simp only [Function.comp_apply, Nat.cast_add, Int.add_assoc]

theorem load_take {mem : Int → UInt8} {a : Int} {n m : Nat} (h : n ≤ m) : (load mem a m).take n = load mem a n := by
  obtain ⟨k, rfl⟩ := Nat.exists_eq_add_of_le h
  rw [load_add, List.take_left' (length_load _ _ _)]

theorem load_drop {mem : Int → UInt8} {a : Int} {n m : Nat} (h : n ≤ m) :
    (load mem a m).drop n = load mem (a + n) (m - n) := by
  obtain ⟨k, rfl⟩ := Nat.exists_eq_add_of_le h
  rw [load_add, List.drop_left' (length_load _ _ _), Nat.add_sub_cancel_left]

theorem Packet.removeHeader_some {p : Packet} {n : UInt16} (h : n.toNat ≤ p.first.len.toNat) :
    ∃ p', p.removeHeader n = some p' ∧ p'.bytes = p.bytes.drop n.toNat ∧ p'.next = p.next ∧
      p'.first.mem = p.first.mem ∧ p'.first.payload = p.first.payload + n.toNat ∧
      p'.first.len.toNat = p.first.len.toNat - n.toNat ∧ p'.totLen.toNat = p.totLen.toNat - n.toNat := by
  have hlen := p.len_le
  unfold removeHeader
  split
  · rename_i hn
    exact ⟨p, rfl, by simp [hn]⟩
  · rw [dif_pos (UInt16.le_iff_toNat_le.mpr h)]
    refine ⟨_, rfl, ?_, rfl, rfl, rfl, UInt16.toNat_sub_of_le _ _ (UInt16.le_iff_toNat_le.mpr h),
      UInt16.toNat_sub_of_le _ _ (UInt16.le_iff_toNat_le.mpr (by omega))⟩
    simp only [bytes_eq, Pbuf.bytes]
    rw [List.drop_append_of_le_length (by simpa using h), load_drop h,
      UInt16.toNat_sub_of_le _ _ (UInt16.le_iff_toNat_le.mpr h)]

theorem flatMap_bytes_realloc {remLen : Nat} {q : Pbuf} {rs : List Pbuf} (h : remLen < 2 ^ 16)
    (hle : remLen ≤ chainLen (q :: rs)) :
    ((realloc remLen q rs).1 :: (realloc remLen q rs).2).flatMap Pbuf.bytes =
      ((q :: rs).flatMap Pbuf.bytes).take remLen := by
  induction rs generalizing remLen q with
  | nil =>
    simp only [chainLen, List.map_cons, List.map_nil, List.sum_cons, List.sum_nil] at hle
    simp only [realloc, List.flatMap_cons, List.flatMap_nil, List.append_nil, Pbuf.bytes, UInt16.toNat_ofNat']
    rw [Nat.mod_eq_of_lt h, load_take (by omega)]
  | cons r rs ih =>
    unfold realloc
    split
    · rename_i hgt
      have hrest := @ih (remLen - q.len.toNat) r (by omega)
        (by simp only [chainLen, List.map_cons, List.sum_cons] at hle ⊢; omega)
      have hall : q.bytes.take remLen = q.bytes := List.take_of_length_le (by rw [Pbuf.length_bytes]; omega)
      rw [List.flatMap_cons, hrest, List.flatMap_cons (x := q), List.take_append, Pbuf.length_bytes, hall]
    · rename_i hgt
      rw [List.flatMap_cons (x := q), List.take_append_of_le_length (by rw [Pbuf.length_bytes]; omega)]
      simp only [List.flatMap_cons, List.flatMap_nil, List.append_nil, Pbuf.bytes, UInt16.toNat_ofNat']
      rw [Nat.mod_eq_of_lt h, load_take (by omega)]

theorem Packet.bytes_realloc (p : Packet) (newLen : UInt16) : (p.realloc newLen).bytes = p.bytes.take newLen.toNat := by
  unfold Packet.realloc
  split
  · rename_i hge
    have hge := UInt16.le_iff_toNat_le.mp hge
    rw [List.take_of_length_le (by rw [length_bytes]; omega)]
  · rename_i hlt
    have hlt := UInt16.not_le.mp hlt
    rw [UInt16.lt_iff_toNat_lt, p.totLen_eq] at hlt
    exact flatMap_bytes_realloc newLen.toNat_lt (by omega)

/-! ### Headers -/

open Layout

structure EthAddr where
  a0 : UInt8
  a1 : UInt8
  a2 : UInt8
  a3 : UInt8
  a4 : UInt8
  a5 : UInt8
  deriving DecidableEq, Repr

def ethAddr : Layout EthAddr :=
  (pair u8 (pair u8 (pair u8 (pair u8 (pair u8 u8))))).as
    (fun x => ⟨x.1, x.2.1, x.2.2.1, x.2.2.2.1, x.2.2.2.2.1, x.2.2.2.2.2⟩)
    (fun a => (a.a0, a.a1, a.a2, a.a3, a.a4, a.a5)) (fun _ => rfl) (fun _ => rfl)

/-- `struct eth_hdr`. -/
structure EthHdr where
  dest : EthAddr
  src : EthAddr
  type : UInt16

def ethHdr : Layout EthHdr :=
  (pair ethAddr (pair ethAddr u16)).as (fun x => ⟨x.1, x.2.1, x.2.2⟩) (fun h => (h.dest, h.src, h.type))
    (fun _ => rfl) (fun _ => rfl)

/-- `struct ip_hdr`. -/
structure IpHdr where
  vHl : UInt8
  tos : UInt8
  len : UInt16
  id : UInt16
  offset : UInt16
  ttl : UInt8
  proto : UInt8
  chksum : UInt16
  src : UInt32
  dest : UInt32

def ipHdr : Layout IpHdr :=
  (pair u8 (pair u8 (pair u16 (pair u16 (pair u16 (pair u8 (pair u8 (pair u16 (pair u32 u32))))))))).as
    (fun x => ⟨x.1, x.2.1, x.2.2.1, x.2.2.2.1, x.2.2.2.2.1, x.2.2.2.2.2.1, x.2.2.2.2.2.2.1, x.2.2.2.2.2.2.2.1,
      x.2.2.2.2.2.2.2.2.1, x.2.2.2.2.2.2.2.2.2⟩)
    (fun h => (h.vHl, h.tos, h.len, h.id, h.offset, h.ttl, h.proto, h.chksum, h.src, h.dest))
    (fun _ => rfl) (fun _ => rfl)

/-- `struct udp_hdr`. -/
structure UdpHdr where
  src : UInt16
  dest : UInt16
  len : UInt16
  chksum : UInt16

def udpHdr : Layout UdpHdr :=
  (pair u16 (pair u16 (pair u16 u16))).as (fun x => ⟨x.1, x.2.1, x.2.2.1, x.2.2.2⟩)
    (fun h => (h.src, h.dest, h.len, h.chksum)) (fun _ => rfl) (fun _ => rfl)

/-- `struct icmp_echo_hdr`. -/
structure IcmpEchoHdr where
  type : UInt8
  code : UInt8
  chksum : UInt16
  id : UInt16
  seqno : UInt16

def icmpEchoHdr : Layout IcmpEchoHdr :=
  (pair u8 (pair u8 (pair u16 (pair u16 u16)))).as (fun x => ⟨x.1, x.2.1, x.2.2.1, x.2.2.2.1, x.2.2.2.2⟩)
    (fun h => (h.type, h.code, h.chksum, h.id, h.seqno)) (fun _ => rfl) (fun _ => rfl)

/-- The header at `p->payload + offset`. -/
def Packet.hdr {α : Type} (A : Layout α) (p : Packet) (offset : Int) : α := A.get p.first.mem (p.first.payload + offset)

/-- The packet after the header at `p->payload + offset` is set. -/
def Packet.setHdr {α : Type} (A : Layout α) (p : Packet) (offset : Int) (x : α) : Packet :=
  { p with first := { p.first with mem := A.put p.first.mem (p.first.payload + offset) x } }

section
variable {α : Type} {A : Layout α} {p : Packet}

theorem Packet.hdr_eq (h : A.size ≤ p.first.len.toNat) : p.hdr A 0 = A.dec p.bytes := by
  have hload : load p.first.mem p.first.payload A.size = p.first.bytes.take A.size := (load_take h).symm
  have hfirst : p.first.bytes.take A.size = p.bytes.take A.size := by
    rw [bytes_eq, List.take_append_of_le_length (by rwa [Pbuf.length_bytes])]
  have hle := p.len_le
  rw [hdr, Int.add_zero, Layout.get, hload, hfirst, A.dec_take (by rw [length_bytes]; omega)]

end

end SpeakingClock.Net
