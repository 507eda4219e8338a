import SpeakingClock.Net.Input
import SpeakingClock.Theorems.Net.Chksum

/-! What a frame carries, as a function of its bytes alone (`carried`), and that lwIP's input path hands a
    UDP block exactly that: the headers are in the first buffer, and what is behind them may be spread over
    buffers and padded. -/

namespace SpeakingClock.Net
open OnesSum Memory

/-! ### The first buffer -/

/-- The first `k` bytes of a packet, as far as it has them, are in its first buffer. -/
def Packet.InFirst (p : Packet) (k : Nat) : Prop := p.next = [] ∨ k ≤ p.first.len.toNat

theorem Packet.InFirst.le_iff {p : Packet} {k j : Nat} (h : p.InFirst k) (hj : j ≤ k) :
    j ≤ p.first.len.toNat ↔ j ≤ p.totLen.toNat := by
  have hle := p.len_le
  rcases h with h | h
  · have htot : p.totLen.toNat = p.first.len.toNat := by
      rw [p.totLen_eq, h]
      simp [chainLen]
    rw [htot]
  · omega

/-- What `pbuf_realloc` does to the first buffer. -/
theorem realloc_first {remLen : Nat} {q : Pbuf} {rs : List Pbuf} (hle : remLen ≤ chainLen (q :: rs)) :
    (realloc remLen q rs).1.mem = q.mem ∧ (realloc remLen q rs).1.payload = q.payload ∧
      (realloc remLen q rs).1.len.toNat ≤ q.len.toNat ∧
      ∀ k, (rs = [] ∨ k ≤ q.len.toNat) → ((realloc remLen q rs).2 = [] ∨ k ≤ (realloc remLen q rs).1.len.toNat) := by
  have hofNat (n m : Nat) (h : n ≤ m) : (UInt16.ofNat n).toNat ≤ m := by
    rw [UInt16.toNat_ofNat']
    omega
  cases rs with
  | nil =>
    have hlen : remLen ≤ q.len.toNat := by simpa [chainLen] using hle
    exact ⟨rfl, rfl, hofNat _ _ hlen, fun _ _ => Or.inl rfl⟩
  | cons r rs =>
    unfold realloc
    split
    · exact ⟨rfl, rfl, Nat.le_refl _, fun k hk => Or.inr (hk.resolve_left (List.cons_ne_nil r rs))⟩
    · exact ⟨rfl, rfl, hofNat _ _ (by omega), fun _ _ => Or.inl rfl⟩

theorem Packet.first_realloc (p : Packet) (n : UInt16) :
    (p.realloc n).first.mem = p.first.mem ∧ (p.realloc n).first.payload = p.first.payload ∧
      (p.realloc n).totLen.toNat = min n.toNat p.totLen.toNat ∧ (p.realloc n).first.len.toNat ≤ p.first.len.toNat ∧
      (∀ k, p.InFirst k → (p.realloc n).InFirst k) := by
  unfold Packet.realloc
  split
  · rename_i hge
    have hge := UInt16.le_iff_toNat_le.mp hge
    exact ⟨rfl, rfl, by omega, Nat.le_refl _, fun _ h => h⟩
  · rename_i hlt
    have hlt := UInt16.lt_iff_toNat_lt.mp (UInt16.not_le.mp hlt)
    obtain ⟨hmem, hpayload, hlen, hfirst⟩ :=
      @realloc_first n.toNat p.first p.next (by rw [← p.totLen_eq]; omega)
    exact ⟨hmem, hpayload, show n.toNat = _ by omega, hlen, hfirst⟩

theorem Packet.InFirst.removed {p p' : Packet} {k : Nat} {n : UInt16} (h : p.InFirst k)
    (hnext : p'.next = p.next) (hlen : p'.first.len.toNat = p.first.len.toNat - n.toNat) : p'.InFirst (k - n.toNat) := by
  rcases h with h | h
  · exact Or.inl (hnext.trans h)
  · exact Or.inr (by omega)

/-! ### What a frame carries -/

/-- A UDP datagram, with the addresses and ports at its two ends. -/
structure Datagram where
  src : UInt32
  dest : UInt32
  srcPort : UInt16
  destPort : UInt16
  data : Bytes

/-- The frame is part of a datagram that was cut up on its way. -/
def Fragmented (frame : Bytes) : Prop := (ipHdr.dec (frame.drop 14)).offset &&& lwipHtons (0x1fff ||| 0x2000) ≠ 0

/-- The bytes of an IPv4 packet behind its header, if the header is in order. -/
def ipPayload (ip : Bytes) : Option Bytes :=
  let h := ipHdr.dec ip
  let hlen := (iphHlBytes h).toNat
  let len := (lwipHtons h.len).toNat
  if h.vHl >>> 4 = 4 ∧ 20 ≤ hlen ∧ hlen ≤ len ∧ len ≤ ip.length ∧ sum (ip.take hlen) = 65535 then
    some ((ip.take len).drop hlen)
  else none

/-- The datagram in the payload `udp` of an IPv4 packet with the header `h`, if it is in order. -/
def udpPayload (h : IpHdr) (udp : Bytes) : Option Datagram :=
  let uh := udpHdr.dec udp
  if h.proto = ipProtoUdp ∧ 8 ≤ udp.length ∧ (uh.chksum = 0 ∨
      sum (pseudoHeader h.src h.dest ipProtoUdp (UInt16.ofNat udp.length) ++ udp) = 65535) then
    some ⟨h.src, h.dest, lwipHtons uh.src, lwipHtons uh.dest, udp.drop 8⟩
  else none

/-- The datagram that an Ethernet frame carries whole, if it is in order. -/
def carried (frame : Bytes) : Option Datagram :=
  if frame.length ≤ 14 ∨ (ethHdr.dec frame).type ≠ lwipHtons ethtypeIp then none
  else (ipPayload (frame.drop 14)).bind (udpPayload (ipHdr.dec (frame.drop 14)))

/-- The interface takes the datagram: it is for the interface and comes from an address that a datagram
    can come from, or it is for the port of the DHCP client. -/
def Netif.accepts (netif : Netif) (d : Datagram) : Bool :=
  if ip4ForUs netif d.dest then ip4AddrIsany d.src ∨ ¬(ip4AddrIsbroadcast d.src netif ∨ ip4AddrIsmulticast d.src)
  else d.destPort = dhcpClientPort

/-- The block that a datagram goes to. -/
def Udp.demux (u : Udp) (netif : Netif) (d : Datagram) : Option UdpPcb :=
  let broadcast := ip4AddrIsbroadcast d.dest netif
  let r := udpSearch (fun pcb => pcb.localPort = d.destPort ∧ udpInputLocalMatch netif d.dest broadcast pcb)
    (fun pcb => pcb.remotePort = d.srcPort ∧ (ip4AddrIsany pcb.remoteIp ∨ pcb.remoteIp = d.src))
    (fun pcb => broadcast ∧ d.dest = 0xffffffff ∧ pcb.localIp = netif.ipAddr) u.pcbs none
  r.1.or r.2

/-- What a callback is given: its block, the bytes, and where they come from. -/
def Outcome.received : Outcome → Option (UdpPcb × Bytes × UInt32 × UInt16)
  | recv pcb p addr port => some (pcb, p.bytes, addr, port)
  | _ => none

/-! ### The input path -/

section
variable (netif : Netif) (u : Udp) {k : Nat}

/-- What the callback of the block for `d` is given. -/
def Udp.handed (d : Datagram) : Option (UdpPcb × Bytes × UInt32 × UInt16) :=
  ((u.demux netif d).filter (·.recv)).map fun pcb => (pcb, d.data, d.src, d.srcPort)

theorem received_udpInput (d : IpData) {p : Packet} (hfirst : p.InFirst 8) :
    (udpInput netif u d p).1.received =
      if 8 ≤ p.bytes.length ∧ ((udpHdr.dec p.bytes).chksum = 0 ∨
          sum (pseudoHeader d.src d.dest ipProtoUdp p.totLen ++ p.bytes) = 65535) then
        u.handed netif ⟨d.src, d.dest, lwipHtons (udpHdr.dec p.bytes).src, lwipHtons (udpHdr.dec p.bytes).dest,
          p.bytes.drop 8⟩
      else none := by
  have hlen : 8 ≤ p.first.len.toNat ↔ 8 ≤ p.bytes.length := by
    rw [p.length_bytes]
    exact hfirst.le_iff (Nat.le_refl 8)
  unfold udpInput
  by_cases hshort : p.first.len < udpHlen
  · have : p.first.len.toNat < 8 := UInt16.lt_iff_toNat_lt.mp hshort
    rw [if_pos hshort, if_neg (by omega)]
    rfl
  · have hge : 8 ≤ p.first.len.toNat := UInt16.le_iff_toNat_le.mp (UInt16.not_lt.mp hshort)
    obtain ⟨p', hremove, hbytes, -⟩ := @Packet.removeHeader_some p udpHlen hge
    have hhdr : p.hdr udpHdr 0 = udpHdr.dec p.bytes := p.hdr_eq hge
    have hsum := ipChksumPseudo_eq_zero p.chain ipProtoUdp p.totLen d.src d.dest
    have hgood : ((udpHdr.dec p.bytes).chksum ≠ 0 ∧ ipChksumPseudo p.chain ipProtoUdp p.totLen d.src d.dest ≠ 0) ↔
        ¬((udpHdr.dec p.bytes).chksum = 0 ∨
          sum (pseudoHeader d.src d.dest ipProtoUdp p.totLen ++ p.bytes) = 65535) := by
      rw [not_or, ne_eq, ne_eq, hsum]
      rfl
    simp only [if_neg hshort, hhdr, hremove, Udp.handed, Udp.demux, hgood]
    generalize udpSearch _ _ _ u.pcbs none = r
    generalize r.1.or r.2 = pcb
    by_cases hchk : (udpHdr.dec p.bytes).chksum = 0 ∨
        sum (pseudoHeader d.src d.dest ipProtoUdp p.totLen ++ p.bytes) = 65535
    · simp only [not_true, if_false, if_true, hlen.mp hge, hchk, and_self]
      cases pcb with
      | none =>
        simp only [Option.isSome_none, Bool.false_eq_true, false_or, Option.filter_none, Option.map_none]
        repeat' split
        all_goals rfl
      | some pcb =>
        simp only [Option.isSome_some, true_or, if_true]
        by_cases hrecv : pcb.recv
        · simp only [hrecv, if_true, Outcome.received, hbytes, Option.filter_some, Option.map_some]
          rfl
        · simp only [hrecv, Bool.false_eq_true, if_false, Outcome.received, Option.filter_some, Option.map_none]
    · simp only [hchk, and_false, not_false_eq_true, if_true, if_false]
      split <;> rfl

/-- What the interface hands up of a datagram. -/
def Udp.taken (d : Datagram) : Option (UdpPcb × Bytes × UInt32 × UInt16) :=
  if netif.accepts d then u.handed netif d else none

/-- How long the two headers are with which an IP packet begins, if it carries UDP. -/
def headersLen (ip : Bytes) : Nat := max 20 (iphHlBytes (ipHdr.dec ip)).toNat + 8

theorem iphHlBytes_le (h : IpHdr) : (iphHlBytes h).toNat ≤ 60 := by
  have hlow : (h.vHl &&& 0x0f).toNat ≤ 15 := by
    rw [UInt8.toNat_and]
    exact Nat.and_le_right
  rw [iphHlBytes, UInt8.toNat_toUInt16, UInt8.toNat_mul]
  show _ * 4 % 256 ≤ 60
  omega

/-- A packet that is whole, behind the checks of `ip4_input`. -/
theorem received_ip4Deliver {src dest : UInt32} {hlen : UInt16} {p : Packet} (hfirst : p.InFirst k)
    (h20 : 20 ≤ hlen.toNat) (hk : hlen.toNat + 8 ≤ k) (hle : hlen.toNat ≤ p.first.len.toNat)
    (hsrc : (ipHdr.dec p.bytes).src = src) (hdest : (ipHdr.dec p.bytes).dest = dest) :
    (ip4Deliver netif u src dest hlen p).1.received =
      (udpPayload (ipHdr.dec p.bytes) (p.bytes.drop hlen.toNat)).bind (u.handed netif) := by
  obtain ⟨q, hremove, hbytes, hnext, hmem, hpayload, hlen', htot⟩ := @Packet.removeHeader_some p hlen hle
  have hhdr : p.hdr ipHdr 0 = ipHdr.dec p.bytes := p.hdr_eq (show 20 ≤ _ by omega)
  have hq : q.InFirst 8 := by
    rcases hfirst.removed hnext hlen' with h | h
    · exact Or.inl h
    · exact Or.inr (by omega)
  have hofNat : UInt16.ofNat q.bytes.length = q.totLen := by
    apply UInt16.toNat_inj.mp
    rw [q.length_bytes]
    simp
  unfold ip4Deliver udpPayload
  simp only [hhdr, hremove, Option.getD_some, ← hbytes]
  by_cases hproto : (ipHdr.dec p.bytes).proto = ipProtoUdp
  · rw [if_pos hproto, received_udpInput netif u _ hq]
    simp only [hproto, true_and, hofNat, hsrc, hdest]
    split <;> rfl
  · simp only [hproto, if_false, false_and, Option.bind_none]
    repeat' split
    all_goals rfl

/-- The checks of `ip4_input` on the addresses and the port. -/
theorem accepts_eq {α : Type} {d : Datagram} {proto : UInt8} {dest : UInt16} (hproto : proto = ipProtoUdp)
    (hdest : dest = lwipHtons d.destPort) (x y : α) :
    (if ¬(¬(ip4ForUs netif d.dest = true) ∧ proto = ipProtoUdp ∧ dest = lwipHtons dhcpClientPort) ∧
        ¬(ip4AddrIsany d.src = true) ∧ (ip4AddrIsbroadcast d.src netif = true ∨ ip4AddrIsmulticast d.src = true) then y
      else if ¬(ip4ForUs netif d.dest = true) ∧
        ¬(¬(ip4ForUs netif d.dest = true) ∧ proto = ipProtoUdp ∧ dest = lwipHtons dhcpClientPort) then y
      else x) = if netif.accepts d then x else y := by
  have hport : dest = lwipHtons dhcpClientPort ↔ d.destPort = dhcpClientPort := by
    rw [hdest]
    constructor
    · intro h
      rw [← lwipHtons_lwipHtons d.destPort, h, lwipHtons_lwipHtons]
    · rintro h
      rw [h]
  unfold Netif.accepts
  by_cases hus : ip4ForUs netif d.dest = true
  · simp only [hus, hproto, hport, not_true, false_and, not_false_eq_true, true_and, if_true, if_false]
    cases ip4AddrIsany d.src <;> cases ip4AddrIsbroadcast d.src netif <;> cases ip4AddrIsmulticast d.src <;> simp
  · simp only [hus, hproto, hport, not_false_eq_true, true_and, Bool.false_eq_true, if_false, decide_eq_true_eq]
    by_cases hdhcp : d.destPort = dhcpClientPort
    · simp [hdhcp]
    · simp [hdhcp]

theorem udpPayload_some {h : IpHdr} {udp : Bytes} {d : Datagram} (hd : udpPayload h udp = some d) :
    h.proto = ipProtoUdp ∧ 8 ≤ udp.length ∧
      d = ⟨h.src, h.dest, lwipHtons (udpHdr.dec udp).src, lwipHtons (udpHdr.dec udp).dest, udp.drop 8⟩ := by
  unfold udpPayload at hd
  simp only at hd
  split at hd
  · rename_i hgood
    exact ⟨hgood.1, hgood.2.1, (Option.some.inj hd).symm⟩
  · cases hd

/-- The UDP header that `ip4_input` looks at is the one that `udp_input` reads. -/
theorem peek_eq {p : Packet} {hlen : UInt16} (hfirst : p.InFirst k) (hk : hlen.toNat + 8 ≤ k)
    (hle : hlen.toNat ≤ p.first.len.toNat) (h8 : 8 ≤ (p.bytes.drop hlen.toNat).length) :
    p.hdr udpHdr hlen.toNat = udpHdr.dec (p.bytes.drop hlen.toNat) := by
  obtain ⟨q, -, hbytes, hnext, hmem, hpayload, hlen', htot⟩ := @Packet.removeHeader_some p hlen hle
  have hq : 8 ≤ q.first.len.toNat := by
    rw [(hfirst.removed hnext hlen').le_iff (by omega), ← q.length_bytes, hbytes]
    exact h8
  have hhdr : q.hdr udpHdr 0 = udpHdr.dec q.bytes := q.hdr_eq hq
  rw [← hbytes, ← hhdr, Packet.hdr, Packet.hdr, hmem, hpayload, Int.add_zero]

/-- Behind the checks of the header, a packet that is whole. -/
theorem received_ip4Accept (ip4Reass : Packet → Option Packet) {p : Packet} {hlen : UInt16} (hfirst : p.InFirst k)
    (h20 : 20 ≤ hlen.toNat) (hk : hlen.toNat + 8 ≤ k) (hle : hlen.toNat ≤ p.first.len.toNat)
    (hwhole : (ipHdr.dec p.bytes).offset &&& lwipHtons (0x1fff ||| 0x2000) = 0) :
    (ip4Accept netif u ip4Reass (ipHdr.dec p.bytes) hlen p).1.received =
      (udpPayload (ipHdr.dec p.bytes) (p.bytes.drop hlen.toNat)).bind (u.taken netif) := by
  have hdeliver := received_ip4Deliver netif u hfirst h20 hk hle rfl rfl
  unfold ip4Accept
  simp only [hwhole, ne_eq, not_true, if_false]
  cases hd : udpPayload (ipHdr.dec p.bytes) (p.bytes.drop hlen.toNat) with
  | none =>
    rw [hd] at hdeliver
    split
    · rfl
    · split
      · rfl
      · exact hdeliver
  | some d =>
    rw [hd] at hdeliver
    obtain ⟨hproto, h8, rfl⟩ := udpPayload_some hd
    have hpeek := peek_eq hfirst hk hle h8
    have haccept := @accepts_eq netif _ ⟨(ipHdr.dec p.bytes).src, (ipHdr.dec p.bytes).dest,
      lwipHtons (udpHdr.dec (p.bytes.drop hlen.toNat)).src, lwipHtons (udpHdr.dec (p.bytes.drop hlen.toNat)).dest,
      (p.bytes.drop hlen.toNat).drop 8⟩ _ (p.hdr udpHdr hlen.toNat).dest hproto
      (by rw [hpeek, lwipHtons_lwipHtons]) (ip4Deliver netif u (ipHdr.dec p.bytes).src (ipHdr.dec p.bytes).dest hlen p)
      (.freed, u)
    rw [haccept, Option.bind_some, Udp.taken]
    split
    · exact hdeliver
    · rfl

/-- `ip4_input` trims the packet to the length in its header. -/
theorem trimmed_eq (p : Packet) (len : UInt16) : (if len < p.totLen then p.realloc len else p) = p.realloc len := by
  split
  · rfl
  · rename_i hge
    unfold Packet.realloc
    rw [dif_pos (UInt16.not_lt.mp hge)]

/-- The trimmed packet, when the lengths in its header are in order. -/
theorem trimmed_spec {p : Packet} {hlen len : UInt16} (hfirst : p.InFirst k) (hk : hlen.toNat ≤ k)
    (hhl : hlen.toNat ≤ len.toNat) (hl : len.toNat ≤ p.bytes.length) :
    (p.realloc len).InFirst k ∧ hlen.toNat ≤ (p.realloc len).first.len.toNat ∧
      load (p.realloc len).first.mem (p.realloc len).first.payload hlen.toNat = p.bytes.take hlen.toNat := by
  obtain ⟨-, -, htot, -, hq⟩ := p.first_realloc len
  have hle : hlen.toNat ≤ (p.realloc len).first.len.toNat := by
    rw [(hq k hfirst).le_iff hk, htot]
    rw [p.length_bytes] at hl
    omega
  refine ⟨hq k hfirst, hle, ?_⟩
  have hload : (p.realloc len).bytes.take hlen.toNat =
      load (p.realloc len).first.mem (p.realloc len).first.payload hlen.toNat := by
    rw [Packet.bytes_eq, List.take_append_of_le_length (by rwa [Pbuf.length_bytes])]
    exact load_take hle
  rw [← hload, p.bytes_realloc, List.take_take, Nat.min_eq_left hhl]

theorem received_ip4Input (ip4Reass : Packet → Option Packet) {p : Packet} (hfirst : p.InFirst (headersLen p.bytes))
    (hwhole : (ipHdr.dec p.bytes).offset &&& lwipHtons (0x1fff ||| 0x2000) = 0) :
    (ip4Input netif u ip4Reass p).1.received =
      ((ipPayload p.bytes).bind (udpPayload (ipHdr.dec p.bytes))).bind (u.taken netif) := by
  unfold ip4Input
  simp only [trimmed_eq]
  have hk : headersLen p.bytes = max 20 (iphHlBytes (ipHdr.dec p.bytes)).toNat + 8 := rfl
  generalize headersLen p.bytes = k at hfirst hk
  by_cases hshort : p.first.len.toNat < 20
  · -- too short for a header: whatever is read there, one of its lengths is refused
    have hnone : ipPayload p.bytes = none := by
      have hlt : ¬20 ≤ p.bytes.length := by
        rw [p.length_bytes, ← hfirst.le_iff (by omega)]
        omega
      unfold ipPayload
      rw [if_neg]
      rintro ⟨-, h20, hhl, hl, -⟩
      omega
    rw [hnone]
    generalize p.hdr ipHdr 0 = h
    obtain ⟨-, -, -, hlen, -⟩ := p.first_realloc (lwipHtons h.len)
    split
    · rfl
    · rw [if_pos]
      · rfl
      · simp only [gt_iff_lt, UInt16.lt_iff_toNat_lt]
        show _ ∨ _ ∨ (iphHlBytes h).toNat < 20
        omega
  · have hhdr : p.hdr ipHdr 0 = ipHdr.dec p.bytes := p.hdr_eq (show 20 ≤ _ by omega)
    have h20' : ipHdr.size ≤ p.bytes.length := by
      have := p.len_le
      rw [p.length_bytes]
      show 20 ≤ _
      omega
    rw [hhdr]
    generalize hh : ipHdr.dec p.bytes = h at hk hwhole ⊢
    obtain ⟨-, -, htot, -, hq⟩ := p.first_realloc (lwipHtons h.len)
    have h60 := iphHlBytes_le h
    have hcond : (iphHlBytes h > (p.realloc (lwipHtons h.len)).first.len ∨
        lwipHtons h.len > (p.realloc (lwipHtons h.len)).totLen ∨ iphHlBytes h < ipHlen) ↔
        ¬(20 ≤ (iphHlBytes h).toNat ∧ (iphHlBytes h).toNat ≤ (lwipHtons h.len).toNat ∧
          (lwipHtons h.len).toNat ≤ p.bytes.length) := by
      have hin := (hq k hfirst).le_iff (show (iphHlBytes h).toNat ≤ k by omega)
      simp only [gt_iff_lt, UInt16.lt_iff_toNat_lt, p.length_bytes]
      show _ ∨ _ ∨ (iphHlBytes h).toNat < 20 ↔ _
      omega
    by_cases hgood : h.vHl >>> 4 = 4 ∧ 20 ≤ (iphHlBytes h).toNat ∧ (iphHlBytes h).toNat ≤ (lwipHtons h.len).toNat ∧
        (lwipHtons h.len).toNat ≤ p.bytes.length ∧ sum (p.bytes.take (iphHlBytes h).toNat) = 65535
    · have hip : ipPayload p.bytes = some ((p.bytes.take (lwipHtons h.len).toNat).drop (iphHlBytes h).toNat) := by
        unfold ipPayload
        rw [hh, if_pos hgood]
      obtain ⟨hversion, h20, hhl, hl, hsum⟩ := hgood
      obtain ⟨hqk, hle, hload⟩ := @trimmed_spec k p (iphHlBytes h) _ hfirst (by omega) hhl hl
      have hchk := (inetChksum_eq_zero (p.realloc (lwipHtons h.len)).first.payload
        (show (p.bytes.take (iphHlBytes h).toNat).length ≤ 0x20000 by rw [List.length_take]; omega)).mpr hsum
      have hbytes := p.bytes_realloc (lwipHtons h.len)
      have hdec : ipHdr.dec (p.realloc (lwipHtons h.len)).bytes = h := by
        rw [hbytes, ipHdr.dec_take_of_le h20' (show 20 ≤ _ by omega), hh]
      rw [if_neg (not_not.mpr hversion), if_neg (fun hbad => hcond.mp hbad ⟨h20, hhl, hl⟩), hload,
        if_neg (not_not.mpr hchk), hip, Option.bind_some]
      have haccept := received_ip4Accept netif u ip4Reass hqk h20 (by omega) hle (by rw [hdec]; exact hwhole)
      rw [hdec, hbytes] at haccept
      exact haccept
    · have hnone : ipPayload p.bytes = none := by
        unfold ipPayload
        rw [hh, if_neg hgood]
      rw [hnone]
      split
      · rfl
      · rename_i hversion
        split
        · rfl
        · rename_i hlens
          rw [hcond, not_not] at hlens
          obtain ⟨h20, hhl, hl⟩ := hlens
          obtain ⟨-, -, hload⟩ := @trimmed_spec k p (iphHlBytes h) _ hfirst (by omega) hhl hl
          rw [if_pos]
          · rfl
          · rw [hload]
            intro hchk
            exact hgood ⟨not_not.mp hversion, h20, hhl, hl, (inetChksum_eq_zero _
              (show (p.bytes.take (iphHlBytes h).toNat).length ≤ 0x20000 by rw [List.length_take]; omega)).mp hchk⟩

/-- A frame of type IP that is whole. -/
theorem received_ipFrame (ip4Reass : Packet → Option Packet) {p : Packet} (hethernet : netif.etharp = true)
    (hfirst : p.InFirst (14 + headersLen (p.bytes.drop 14))) (hlong : 14 < p.bytes.length) (htype : (ethHdr.dec p.bytes).type = lwipHtons ethtypeIp)
    (hwhole : ¬Fragmented p.bytes) :
    (ethernetInput netif u ip4Reass p).1.received =
      ((ipPayload (p.bytes.drop 14)).bind (udpPayload (ipHdr.dec (p.bytes.drop 14)))).bind (u.taken netif) := by
  have hgt : 15 ≤ p.first.len.toNat := by
    rw [hfirst.le_iff (by unfold headersLen; omega), ← p.length_bytes]
    omega
  have hge : 14 ≤ p.first.len.toNat := by omega
  have hlen : ¬p.first.len ≤ sizeofEthHdr := by
    rw [UInt16.le_iff_toNat_le]
    show ¬_ ≤ 14
    omega
  have hhdr : p.hdr ethHdr 0 = ethHdr.dec p.bytes := p.hdr_eq hge
  obtain ⟨q, hremove, hbytes, hnext, -, -, hlen', -⟩ := @Packet.removeHeader_some p sizeofEthHdr hge
  have hbytes : q.bytes = p.bytes.drop 14 := hbytes
  have hq : q.InFirst (headersLen q.bytes) := by
    have hremoved := hfirst.removed hnext hlen'
    rwa [show sizeofEthHdr.toNat = 14 from rfl, Nat.add_sub_cancel_left, ← hbytes] at hremoved
  unfold ethernetInput
  simp only [hlen, hhdr, htype, if_true, hethernet, not_true, if_false, hremove]
  rw [← hbytes]
  refine received_ip4Input netif u ip4Reass hq ?_
  rw [hbytes]
  exact not_not.mp hwhole

/-- What the callbacks are given of a frame is the datagram that its bytes carry, if the interface takes it
    and a block is open for it. The headers are in the first buffer; the bytes behind them may be spread over
    buffers, and the frame may be padded. -/
theorem received_eq_carried (ip4Reass : Packet → Option Packet) {p : Packet} (hethernet : netif.etharp = true)
    (hfirst : p.InFirst (14 + headersLen (p.bytes.drop 14))) (hwhole : ¬Fragmented p.bytes) :
    (ethernetInput netif u ip4Reass p).1.received = (carried p.bytes).bind (u.taken netif) := by
  unfold carried
  by_cases hshort : p.bytes.length ≤ 14
  · have hlen : p.first.len ≤ sizeofEthHdr := by
      have hin := hfirst.le_iff (show 15 ≤ _ by unfold headersLen; omega)
      rw [UInt16.le_iff_toNat_le]
      rw [p.length_bytes] at hshort
      show _ ≤ 14
      omega
    rw [if_pos (Or.inl hshort), ethernetInput, if_pos hlen]
    rfl
  · by_cases htype : (ethHdr.dec p.bytes).type = lwipHtons ethtypeIp
    · rw [if_neg (by rw [not_or, not_not]; exact ⟨hshort, htype⟩)]
      exact received_ipFrame netif u ip4Reass hethernet hfirst (by omega) htype hwhole
    · have hge : 14 ≤ p.first.len.toNat := by
        rw [hfirst.le_iff (by unfold headersLen; omega), ← p.length_bytes]
        omega
      have hhdr : p.hdr ethHdr 0 = ethHdr.dec p.bytes := p.hdr_eq hge
      rw [if_pos (Or.inr htype)]
      unfold ethernetInput
      simp only [hhdr, htype, if_false]
      repeat' split
      all_goals rfl

end

/-- An interface of the network 10.0.2.0 that the emulator makes. -/
def exampleNetif (last : UInt32) : Netif :=
  ⟨0x0002000a + last * 0x1000000, 0x00ffffff, 0x0202000a, 1500, ⟨2, 0, 0, 0, 0, 1⟩, 1, true, true, true, true⟩

def examplePcb (localPort : UInt16) : UdpPcb := ⟨0, 0, 0, localPort, 0, false, false, 255, 0, 0, true⟩

/-- An empty datagram from 10.0.2.15, port 49200, to 10.0.2.2, port 123, padded to 60 bytes. -/
def exampleFrame : Bytes :=
  [2, 0, 0, 0, 0, 2, 2, 0, 0, 0, 0, 1, 8, 0, 0x45, 0, 0, 0x1c, 0, 7, 0, 0, 0xff, 0x11, 0xa3, 0xb9, 10, 0, 2, 15,
    10, 0, 2, 2, 0xc0, 0x30, 0, 0x7b, 0, 8, 0, 0] ++ List.replicate 18 0

def examplePacket : Packet := Packet.single ⟨fun a => exampleFrame.getD a.toNat 0, 0, 60, true, 0⟩

theorem received_eq_carried_example :
    ¬Fragmented examplePacket.bytes ∧
      (ethernetInput (exampleNetif 2) ⟨[examplePcb 123], 0⟩ (fun _ => none) examplePacket).1.received =
        some (examplePcb 123, [], 0x0f02000a, 49200) := by
  have hbytes : examplePacket.bytes = exampleFrame := by decide
  have hwhole : ¬Fragmented examplePacket.bytes := by
    rw [hbytes, Fragmented]
    decide
  refine ⟨hwhole, ?_⟩
  rw [received_eq_carried (exampleNetif 2) ⟨[examplePcb 123], 0⟩ (fun _ => none) rfl (Or.inl rfl) hwhole, hbytes]
  rfl

end SpeakingClock.Net
