import SpeakingClock.Net.Chksum

/-! The checksum of `inet_chksum.c` is the one's complement sum of the flattened bytes, however they are
    aligned and however a chain cuts them: an odd address swaps the bytes of every word, an odd segment
    those of all the words after it, and both are put right by a swap of the sum. -/

namespace SpeakingClock.Net
open OnesSum

theorem toNat_foldU32T (u : UInt32) : (foldU32T u).toNat = u.toNat / 65536 + u.toNat % 65536 := by
  have hu := u.toNat_lt
  have hhigh : (u >>> 16).toNat = u.toNat / 65536 := by
    rw [UInt32.toNat_shiftRight, Nat.shiftRight_eq_div_pow]
    rfl
  have hlow : (u &&& 0x0000ffff).toNat = u.toNat % 65536 := by
    rw [UInt32.toNat_and]
    exact Nat.and_two_pow_sub_one_eq_mod u.toNat 16
  rw [foldU32T, UInt32.toNat_add, hhigh, hlow]
  omega

theorem toNat_swapBytesInWord {w : UInt32} (h : w.toNat < 65536) :
    (swapBytesInWord w).toNat = 256 * (w.toNat % 256) + w.toNat / 256 := by
  have hshift : ((w &&& 0xff) <<< 8).toNat = (w.toNat &&& 0xff) <<< 8 := by
    have hlow : w.toNat &&& 0xff = w.toNat % 256 := Nat.and_two_pow_sub_one_eq_mod w.toNat 8
    rw [UInt32.toNat_shiftLeft, UInt32.toNat_and]
    simp only [UInt32.toNat_ofNat]
    norm_num
    rw [hlow, Nat.shiftLeft_eq]
    omega
  have hswap := toNat_swap w.toNat
  rw [swapBytesInWord, UInt32.toNat_or, hshift, UInt32.toNat_shiftRight, UInt32.toNat_and]
  simp only [UInt32.toNat_ofNat]
  norm_num at hswap ⊢
  rw [hswap]
  omega

theorem rep_foldU32T_twice (u : UInt32) : Rep (foldU32T (foldU32T u)).toNat u.toNat := by
  rw [toNat_foldU32T, toNat_foldU32T]
  exact Rep.carry_twice u.toNat_lt

theorem rep_foldU32T_add {x y : UInt32} {n m : Nat} (hx : Rep x.toNat n) (hy : Rep y.toNat m) :
    Rep (foldU32T (x + y)).toNat (n + m) := by
  have hxlt := hx.lt
  have hylt := hy.lt
  have hsum : (x + y).toNat = x.toNat + y.toNat := by
    rw [UInt32.toNat_add]
    omega
  rw [toNat_foldU32T, hsum]
  exact hx.add hy

theorem rep_swapBytesInWord {x : UInt32} {n : Nat} (h : Rep x.toNat n) :
    Rep (swapBytesInWord x).toNat (256 * n) := by
  rw [toNat_swapBytesInWord h.lt]
  exact h.swap

/-! ### One stretch of memory -/

theorem toNat_u16_dec (a b : UInt8) : (Layout.u16.dec [a, b]).toNat = a.toNat + 256 * b.toNat := by
  have ha := a.toNat_lt
  have hb := b.toNat_lt
  show (UInt16.ofNat (a.toNat + 256 * b.toNat)).toNat = _
  rw [UInt16.toNat_ofNat']
  omega

/-- The words that the loop adds stay below 2^32 for data of up to 0x20000 bytes. -/
theorem addBulk_spec (sum : UInt32) (data : Bytes) (h : sum.toNat + data.length / 2 * 65535 < 2 ^ 32) :
    (addBulk sum data).1.toNat ≤ sum.toNat + data.length / 2 * 65535 ∧
      (addBulk sum data).1.toNat + ((addBulk sum data).2.headD 0).toNat ≡ sum.toNat + value data [MOD 65535] ∧
      ((addBulk sum data).1.toNat + ((addBulk sum data).2.headD 0).toNat = 0 ↔ sum.toNat + value data = 0) := by
  fun_induction addBulk sum data with
  | case1 sum a b data ih =>
    have ha := a.toNat_lt
    have hb := b.toNat_lt
    simp only [List.length_cons] at h
    have hsum : (sum + (Layout.u16.dec [a, b]).toUInt32).toNat = sum.toNat + (a.toNat + 256 * b.toNat) := by
      rw [UInt32.toNat_add, UInt16.toNat_toUInt32, toNat_u16_dec]
      omega
    rw [hsum] at ih
    obtain ⟨hle, hmod, hzero⟩ := ih (by omega)
    refine ⟨?_, hmod.trans ?_, ?_⟩
    · simp only [List.length_cons]
      omega
    · rw [Nat.add_assoc]
      exact (value_pair a b data).symm.add_left _
    · simp only [value_cons]
      omega
  | case2 sum data hdata =>
    rcases data with _ | ⟨a, _ | ⟨b, data⟩⟩
    · simp [Nat.ModEq.refl]
    · simp [Nat.ModEq.refl]
    · exact absurd rfl (hdata a b data)

/-- The folded sum, with the byte `high` that stands before the aligned data. -/
theorem rep_bulk (high : UInt8) {data : Bytes} (h : data.length ≤ 0x20001) :
    Rep (foldU32T (foldU32T ((addBulk 0 data).1 +
      (Layout.u16.dec [(addBulk 0 data).2.headD 0, high]).toUInt32))).toNat (value data + 256 * high.toNat) := by
  obtain ⟨hle, hmod, hzero⟩ := addBulk_spec 0 data (by simp only [UInt32.toNat_zero]; omega)
  have hhigh := high.toNat_lt
  have hlow := ((addBulk 0 data).2.headD 0).toNat_lt
  simp only [UInt32.toNat_zero, Nat.zero_add] at hle hmod hzero
  have hsum : ((addBulk 0 data).1 + (Layout.u16.dec [(addBulk 0 data).2.headD 0, high]).toUInt32).toNat =
      (addBulk 0 data).1.toNat + ((addBulk 0 data).2.headD 0).toNat + 256 * high.toNat := by
    rw [UInt32.toNat_add, UInt16.toNat_toUInt32, toNat_u16_dec]
    omega
  have hrep := rep_foldU32T_twice
    ((addBulk 0 data).1 + (Layout.u16.dec [(addBulk 0 data).2.headD 0, high]).toUInt32)
  rw [hsum] at hrep
  exact hrep.congr (hmod.add_right _) (by omega)

theorem toNat_toUInt16 {x : UInt32} (h : x.toNat < 65536) : x.toUInt16.toNat = x.toNat := by
  rw [UInt32.toNat_toUInt16]
  omega

theorem rep_lwipStandardChksum (dataptr : Int) {data : Bytes} (h : data.length ≤ 0x20000) :
    Rep (lwipStandardChksum dataptr data).toNat (value data) := by
  unfold lwipStandardChksum
  by_cases hodd : dataptr % 2 = 1
  · simp only [if_pos hodd]
    have hrep := rep_swapBytesInWord (@rep_bulk (data.headD 0) data.tail (by rw [List.length_tail]; omega))
    have hval : value data = (data.headD 0).toNat + 256 * value data.tail := by
      cases data <;> simp
    rw [toNat_toUInt16 hrep.lt]
    refine hrep.congr ?_ (by omega)
    rw [hval, Nat.mul_add, Nat.add_comm]
    exact (modEq_256_256 _).add_right _
  · simp only [if_neg hodd]
    have hrep := @rep_bulk 0 data (by omega)
    rw [toNat_toUInt16 hrep.lt]
    simpa using hrep

/-! ### A chain -/

theorem chainLen_cons (q : Pbuf) (qs : List Pbuf) : chainLen (q :: qs) = q.len.toNat + chainLen qs := rfl

/-- Each byte that the loop has passed shifts the sum by one byte. -/
theorem rep_sumChain {acc : UInt32} {n : Nat} (swapped : Bool) (qs : List Pbuf) (h : Rep acc.toNat n) :
    Rep (sumChain acc swapped qs).1.toNat (256 ^ chainLen qs * (n + value (qs.flatMap Pbuf.bytes))) ∧
      (sumChain acc swapped qs).2 = (swapped ^^ decide (chainLen qs % 2 = 1)) := by
  induction qs generalizing acc n swapped with
  | nil => simpa [sumChain, chainLen] using h
  | cons q qs ih =>
    have hq : Rep (foldU32T (acc + (lwipStandardChksum q.payload q.bytes).toUInt32)).toNat (n + value q.bytes) := by
      have hlen := q.len.toNat_lt
      apply rep_foldU32T_add h
      rw [UInt16.toNat_toUInt32]
      exact rep_lwipStandardChksum _ (by rw [Pbuf.length_bytes]; omega)
    have hvalue : value ((q :: qs).flatMap Pbuf.bytes) =
        value q.bytes + 256 ^ q.len.toNat * value (qs.flatMap Pbuf.bytes) := by
      rw [List.flatMap_cons, value_append, Pbuf.length_bytes]
    rw [hvalue, chainLen_cons, pow_add, mul_assoc, ← Nat.add_assoc]
    unfold sumChain
    by_cases hodd : q.len.toNat % 2 = 1
    · simp only [if_pos (show q.len.toNat % 2 ≠ 0 by omega)]
      obtain ⟨hrep, hswapped⟩ := ih (!swapped) (rep_swapBytesInWord hq)
      refine ⟨hrep.congr (modEq_shift_odd hodd _ _ _) (by simp), ?_⟩
      have hparity : decide ((q.len.toNat + chainLen qs) % 2 = 1) = !decide (chainLen qs % 2 = 1) := by
        rw [← decide_not, decide_eq_decide]
        omega
      rw [hswapped, hparity]
      cases swapped <;> simp
    · simp only [if_neg (show ¬q.len.toNat % 2 ≠ 0 by omega)]
      obtain ⟨hrep, hswapped⟩ := ih swapped hq
      refine ⟨hrep.congr (modEq_shift_even (by omega) _ _ _) (by simp), ?_⟩
      have hparity : decide ((q.len.toNat + chainLen qs) % 2 = 1) = decide (chainLen qs % 2 = 1) := by
        rw [decide_eq_decide]
        omega
      rw [hswapped, hparity]

theorem rep_chainSum {acc : UInt32} {n : Nat} (qs : List Pbuf) (h : Rep acc.toNat n) :
    Rep (chainSum acc qs).toNat (n + value (qs.flatMap Pbuf.bytes)) := by
  obtain ⟨hrep, hswapped⟩ := rep_sumChain false qs h
  unfold chainSum
  by_cases hodd : chainLen qs % 2 = 1
  · simp only [hswapped, hodd, decide_true, Bool.false_xor, if_true]
    refine (rep_swapBytesInWord hrep).congr ?_ (by simp)
    exact ((modEq_pow_odd hodd _).mul_left 256).trans (modEq_256_256 _)
  · simp only [hswapped, hodd, decide_false, Bool.false_xor, Bool.false_eq_true, if_false]
    exact hrep.congr (modEq_pow_even (by omega) _) (by simp)

/-! ### The checksums -/

theorem toNat_low16 {x : UInt32} : (low16 x).toNat = x.toNat % 65536 := by
  rw [low16, UInt32.toNat_and]
  exact Nat.and_two_pow_sub_one_eq_mod x.toNat 16

theorem toNat_high16 {x : UInt32} : (high16 x).toNat = x.toNat / 65536 := by
  have hx := x.toNat_lt
  show (low16 (x >>> 16)).toNat = _
  rw [toNat_low16, UInt32.toNat_shiftRight, Nat.shiftRight_eq_div_pow]
  show x.toNat / 2 ^ 16 % 65536 = _
  omega

/-- The complement that a checksum function returns. -/
theorem toNat_complement {x : UInt32} (h : x.toNat < 65536) : (~~~low16 x).toUInt16.toNat = 65535 - x.toNat := by
  rw [UInt32.toNat_toUInt16, UInt32.toNat_not, toNat_low16]
  simp only [UInt32.size]
  omega

/-- A stored checksum, read in network order. -/
theorem stored_eq {c : UInt16} {s n : Nat} {bs : Bytes} (hc : c.toNat = 65535 - s) (h : Rep s n)
    (hmod : n ≡ value bs [MOD 65535]) (hzero : n = 0 ↔ value bs = 0) : (lwipHtons c).toNat = 65535 - sum bs := by
  have hsum : 256 * (s % 256) + s / 256 = sum bs :=
    (h.congr hmod hzero).swap.unique (rep_sum bs) rfl Iff.rfl
  have hlt := h.lt
  rw [toNat_lwipHtons, hc, ← hsum]
  omega

/-- The pseudo header that the checksum of a datagram covers. -/
def pseudoHeader (src dest : UInt32) (proto : UInt8) (protoLen : UInt16) : Bytes :=
  Layout.u32.enc src ++ (Layout.u32.enc dest ++ ([0, proto] ++ Layout.u16.enc (lwipHtons protoLen)))

theorem length_pseudoHeader (src dest : UInt32) (proto : UInt8) (protoLen : UInt16) :
    (pseudoHeader src dest proto protoLen).length = 12 := by
  simp only [pseudoHeader, List.length_append, Layout.length_enc, List.length_cons, List.length_nil]
  rfl

/-- A string in front of another, cut at a word. -/
theorem value_append_even {xs : Bytes} (h : xs.length % 2 = 0) (ys : Bytes) :
    value (xs ++ ys) ≡ value xs + value ys [MOD 65535] := by
  rw [value_append]
  exact (modEq_pow_even h _).add_left _

theorem value_pseudoHeader (src dest : UInt32) (proto : UInt8) (protoLen : UInt16) :
    value (pseudoHeader src dest proto protoLen) ≡
      src.toNat + (dest.toNat + (256 * proto.toNat + (lwipHtons protoLen).toNat)) [MOD 65535] := by
  have h32 (w : UInt32) : (Layout.u32.enc w).length % 2 = 0 := by
    rw [Layout.length_enc]
    rfl
  refine (value_append_even (h32 src) _).trans ?_
  rw [Layout.value_u32]
  refine Nat.ModEq.add_left _ ((value_append_even (h32 dest) _).trans ?_)
  rw [Layout.value_u32]
  refine Nat.ModEq.add_left _ ((value_append_even (by simp) _).trans ?_)
  rw [Layout.value_u16]
  simp [Nat.ModEq.refl]

theorem value_append_eq_zero {xs ys : Bytes} : value (xs ++ ys) = 0 ↔ value xs = 0 ∧ value ys = 0 := by
  rw [value_append]
  simp

theorem value_pseudoHeader_eq_zero (src dest : UInt32) (proto : UInt8) (protoLen : UInt16) :
    value (pseudoHeader src dest proto protoLen) = 0 ↔
      src.toNat + (dest.toNat + (256 * proto.toNat + (lwipHtons protoLen).toNat)) = 0 := by
  simp only [pseudoHeader, value_append_eq_zero, Layout.value_u32, Layout.value_u16, value_cons, value_nil]
  simp

/-- The four halves of the addresses. -/
theorem rep_addresses (src dest : UInt32) :
    Rep (foldU32T (foldU32T (low16 src + high16 src + low16 dest + high16 dest))).toNat (src.toNat + dest.toNat) := by
  have hs := src.toNat_lt
  have hd := dest.toNat_lt
  have hsum : (low16 src + high16 src + low16 dest + high16 dest).toNat =
      src.toNat / 65536 + src.toNat % 65536 + (dest.toNat / 65536 + dest.toNat % 65536) := by
    simp only [UInt32.toNat_add, toNat_low16, toNat_high16]
    omega
  have hrep := rep_foldU32T_twice (low16 src + high16 src + low16 dest + high16 dest)
  rw [hsum] at hrep
  refine hrep.congr ((modEq_carry _).add (modEq_carry _)) ?_
  omega

theorem rep_ipChksumPseudo (p : List Pbuf) (proto : UInt8) (protoLen : UInt16) (src dest : UInt32) :
    ∃ s, (ipChksumPseudo p proto protoLen src dest).toNat = 65535 - s ∧
      Rep s (value (pseudoHeader src dest proto protoLen ++ p.flatMap Pbuf.bytes)) := by
  have hchain := rep_chainSum p (rep_addresses src dest)
  set acc := chainSum (foldU32T (foldU32T (low16 src + high16 src + low16 dest + high16 dest))) p with hacc
  have hacclt := hchain.lt
  have hproto : (lwipHtons proto.toUInt16).toNat = 256 * proto.toNat := by
    have := proto.toNat_lt
    rw [toNat_lwipHtons, UInt8.toNat_toUInt16]
    omega
  have hlen := (lwipHtons protoLen).toNat_lt
  have hplt := proto.toNat_lt
  have hsum : (acc + (lwipHtons proto.toUInt16).toUInt32 + (lwipHtons protoLen).toUInt32).toNat =
      acc.toNat + (256 * proto.toNat + (lwipHtons protoLen).toNat) := by
    simp only [UInt32.toNat_add, UInt16.toNat_toUInt32, hproto]
    omega
  have hrep := rep_foldU32T_twice (acc + (lwipHtons proto.toUInt16).toUInt32 + (lwipHtons protoLen).toUInt32)
  refine ⟨_, ?_, hrep.congr ?_ ?_⟩
  · rw [ipChksumPseudo, inetCksumPseudoBase, ← hacc]
    exact toNat_complement hrep.lt
  · have hhead := value_pseudoHeader src dest proto protoLen
    have hall := (value_append_even (by rw [length_pseudoHeader]) (p.flatMap Pbuf.bytes)).trans (hhead.add_right _)
    rw [hsum]
    refine (hchain.modEq.add_right _).trans (Nat.ModEq.trans ?_ hall.symm)
    rw [show src.toNat + dest.toNat + value (p.flatMap Pbuf.bytes) + (256 * proto.toNat + (lwipHtons protoLen).toNat) =
      src.toNat + (dest.toNat + (256 * proto.toNat + (lwipHtons protoLen).toNat)) + value (p.flatMap Pbuf.bytes) by ring]
  · have hz := hchain.zero
    rw [hsum, value_append_eq_zero, value_pseudoHeader_eq_zero]
    omega

/-- A checksum over bytes that hold their checksum comes out as zero exactly when the sum is all ones. -/
theorem eq_zero_iff {c : UInt16} {s : Nat} {bs : Bytes} (hc : c.toNat = 65535 - s) (h : Rep s (value bs)) :
    c = 0 ↔ sum bs = 65535 := by
  have hstored := stored_eq hc h rfl Iff.rfl
  have hlt := (rep_sum bs).lt
  have hzero : c = 0 ↔ (lwipHtons c).toNat = 0 := by
    rw [← UInt16.toNat_inj, toNat_lwipHtons]
    simp
    omega
  rw [hzero, hstored]
  omega

theorem inetChksum_eq_zero (dataptr : Int) {data : Bytes} (h : data.length ≤ 0x20000) :
    inetChksum dataptr data = 0 ↔ sum data = 65535 := by
  refine eq_zero_iff ?_ (rep_lwipStandardChksum dataptr h)
  rw [inetChksum, UInt16.toNat_not]
  rfl

theorem inetChksumPbuf_eq_zero (p : List Pbuf) : inetChksumPbuf p = 0 ↔ sum (p.flatMap Pbuf.bytes) = 65535 := by
  have hrep := @rep_chainSum 0 0 p (Rep.self (by simp))
  rw [Nat.zero_add] at hrep
  exact eq_zero_iff (toNat_complement hrep.lt) hrep

theorem ipChksumPseudo_eq_zero (p : List Pbuf) (proto : UInt8) (protoLen : UInt16) (src dest : UInt32) :
    ipChksumPseudo p proto protoLen src dest = 0 ↔
      sum (pseudoHeader src dest proto protoLen ++ p.flatMap Pbuf.bytes) = 65535 := by
  obtain ⟨s, hs, hrep⟩ := rep_ipChksumPseudo p proto protoLen src dest
  exact eq_zero_iff hs hrep

/-- However the bytes are aligned and cut into segments, the checksum functions return the complement of
    their one's complement sum, to be stored in the header as it is. -/
theorem chksum_flattened (dataptr : Int) (data : Bytes) (p : List Pbuf) (proto : UInt8) (protoLen : UInt16)
    (src dest : UInt32) (h : data.length ≤ 0x20000) :
    (lwipHtons (inetChksum dataptr data)).toNat = 65535 - sum data ∧
      (lwipHtons (inetChksumPbuf p)).toNat = 65535 - sum (p.flatMap Pbuf.bytes) ∧
      (lwipHtons (ipChksumPseudo p proto protoLen src dest)).toNat =
        65535 - sum (pseudoHeader src dest proto protoLen ++ p.flatMap Pbuf.bytes) := by
  refine ⟨?_, ?_, ?_⟩
  · refine stored_eq ?_ (rep_lwipStandardChksum dataptr h) rfl Iff.rfl
    rw [inetChksum, UInt16.toNat_not]
    rfl
  · have hrep := @rep_chainSum 0 0 p (Rep.self (by simp))
    rw [Nat.zero_add] at hrep
    exact stored_eq (toNat_complement hrep.lt) hrep rfl Iff.rfl
  · obtain ⟨s, hs, hrep⟩ := rep_ipChksumPseudo p proto protoLen src dest
    exact stored_eq hs hrep rfl Iff.rfl

/-- Three bytes at an odd address, and a chain that cuts five bytes after the third. -/
theorem chksum_flattened_odd :
    (lwipHtons (inetChksum 1 [0x12, 0x34, 0x56])).toNat = 65535 - sum [0x12, 0x34, 0x56] ∧
      (lwipHtons (inetChksumPbuf [⟨fun _ => 0x12, 1, 3, true, 0⟩, ⟨fun _ => 0x34, 8, 2, true, 0⟩])).toNat =
        65535 - sum [0x12, 0x12, 0x12, 0x34, 0x34] :=
  have h := chksum_flattened 1 [0x12, 0x34, 0x56] [⟨fun _ => 0x12, 1, 3, true, 0⟩, ⟨fun _ => 0x34, 8, 2, true, 0⟩] 17 13 0 0
    (by decide)
  ⟨h.1, h.2.1⟩

end SpeakingClock.Net
