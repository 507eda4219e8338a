import SpeakingClock.Driver

/-! What the device makes of the words of `lan9118_linkoutput`. The driver pads each segment of a chain
    to whole words, while the device counts the bytes of the whole frame; the frames come out as they
    went in exactly when in each chain only the last non-empty segment ends inside a word
    (`transmitted_iff`). -/

namespace SpeakingClock
open Words

/-- The segments hold these payloads, whatever lies in memory after them. -/
def Holds (p : List TxSegment) (payloads : List Bytes) : Prop := p.map (·.payload) = payloads

/-- The frames that may be sent: 14 to 1514 bytes. -/
def Sendable (payloads : List Bytes) : Prop := 14 ≤ payloads.flatten.length ∧ payloads.flatten.length ≤ 1514

instance (payloads : List Bytes) : Decidable (Sendable payloads) := inferInstanceAs (Decidable (_ ∧ _))

/-! ### One segment -/

section
variable (q : TxSegment)

theorem bytesOf_words : bytesOf q.words = (List.range (4 * wordCount q.payload.length)).map q.mem := bytesOf_loadWord _ _

theorem length_words : q.words.length = wordCount q.payload.length := by simp [TxSegment.words]

/-- The bytes of a segment's words begin with its payload; what follows lies beyond it. -/
theorem bytesOf_words_eq : bytesOf q.words = q.payload ++
    (List.range (4 * wordCount q.payload.length - q.payload.length)).map q.beyond := by
  have hle : q.payload.length ≤ 4 * wordCount q.payload.length := by unfold wordCount; omega
  rw [bytesOf_words]
  refine List.ext_getElem (by simp; omega) fun i h1 h2 => ?_
  simp only [List.getElem_map, List.getElem_range, TxSegment.mem, List.getD_eq_getElem?_getD]
  rcases Nat.lt_or_ge i q.payload.length with hi | hi
  · simp [List.getElem_append_left hi, hi]
  · simp [List.getElem_append_right hi, hi]

end

/-! ### One chain -/

theorem bytesOf_flatMap_words (p : List TxSegment) : bytesOf (p.flatMap TxSegment.words) = p.flatMap fun q => bytesOf q.words := by
  induction p with
  | nil => rfl
  | cons q p ih => rw [List.flatMap_cons, List.flatMap_cons, bytesOf_append, ih]

theorem length_flatMap_words (p : List TxSegment) :
    (p.flatMap TxSegment.words).length = ((p.map (·.payload.length)).map wordCount).sum := by
  simp [List.length_flatMap, length_words, Function.comp_def]

theorem sum_map_zero {ls : List Nat} (h : ls.sum = 0) : Tight ls := by
  induction ls with
  | nil => trivial
  | cons l ls ih =>
    rw [List.sum_cons] at h
    exact ⟨.inr (by omega), ih (by omega)⟩

theorem wordCount_sum_le (ls : List Nat) : wordCount ls.sum ≤ (ls.map wordCount).sum := by
  induction ls with
  | nil => exact Nat.le_refl _
  | cons l ls ih =>
    rw [List.map_cons, List.sum_cons, List.sum_cons]
    unfold wordCount at ih ⊢
    omega

theorem length_flatten_eq (payloads : List Bytes) : payloads.flatten.length = (payloads.map List.length).sum := by simp

theorem take_bytesOf_tight {p : List TxSegment} {payloads : List Bytes} (h : Holds p payloads)
    (htight : Tight (payloads.map List.length)) :
    (bytesOf (p.flatMap TxSegment.words)).take payloads.flatten.length = payloads.flatten := by
  induction payloads generalizing p with
  | nil => simp
  | cons b payloads ih =>
    obtain ⟨q, p, rfl, rfl, hp⟩ := List.map_eq_cons_iff.mp h
    rw [bytesOf_flatMap_words, List.flatMap_cons, bytesOf_words_eq, ← bytesOf_flatMap_words, List.flatten_cons,
      List.length_append, List.append_assoc, List.take_append, List.take_of_length_le (by omega), Nat.add_sub_cancel_left]
    rcases htight.head with hdvd | hzero
    · have hexact : 4 * wordCount q.payload.length - q.payload.length = 0 := by unfold wordCount; omega
      rw [hexact, List.range_zero, List.map_nil, List.nil_append, ih hp htight.tail]
    · rw [← length_flatten_eq] at hzero
      rw [hzero, List.take_zero, List.append_nil, List.length_eq_zero_iff.mp hzero, List.append_nil]

/-- A chain that is not tight is written as something else, for some bytes beyond its segments. -/
theorem exists_take_bytesOf_ne {payloads : List Bytes} (htight : ¬Tight (payloads.map List.length)) :
    ∃ p, Holds p payloads ∧ (bytesOf (p.flatMap TxSegment.words)).take payloads.flatten.length ≠ payloads.flatten := by
  induction payloads with
  | nil => exact absurd trivial htight
  | cons b payloads ih =>
    by_cases hhead : 4 ∣ b.length ∨ (payloads.map List.length).sum = 0
    · -- The fault lies further on.
      have hrest : ¬Tight (payloads.map List.length) := fun ht => htight ⟨hhead, ht⟩
      obtain ⟨p, hp, hne⟩ := ih hrest
      have hdvd : 4 ∣ b.length := hhead.resolve_right fun hzero => hrest (sum_map_zero hzero)
      have hexact : 4 * wordCount b.length - b.length = 0 := by unfold wordCount; omega
      refine ⟨⟨b, fun _ => 0⟩ :: p, by simpa [Holds] using hp, fun heq => hne ?_⟩
      rw [bytesOf_flatMap_words, List.flatMap_cons, bytesOf_words_eq, ← bytesOf_flatMap_words, List.flatten_cons,
        List.length_append, List.append_assoc, List.take_append, List.take_of_length_le (by simp),
        Nat.add_sub_cancel_left] at heq
      simpa [hexact] using List.append_cancel_left heq
    · -- The first byte beyond this segment goes where the next segment's first byte should.
      simp only [not_or] at hhead
      obtain ⟨hdvd, hsum⟩ := hhead
      rw [← length_flatten_eq] at hsum
      obtain ⟨x, rest, hx⟩ := List.exists_cons_of_ne_nil (fun h => hsum (by rw [h]; rfl) : payloads.flatten ≠ [])
      have hpad : 0 < 4 * wordCount b.length - b.length := by unfold wordCount; omega
      refine ⟨⟨b, fun _ => x + 1⟩ :: payloads.map fun c => ⟨c, fun _ => 0⟩, by simp [Holds, Function.comp_def],
        fun heq => ?_⟩
      rw [bytesOf_flatMap_words, List.flatMap_cons, bytesOf_words_eq, List.flatten_cons] at heq
      have hat := congrArg (·[b.length]?) heq
      simp only [hx, List.length_append, List.length_cons] at hat
      rw [List.getElem?_take_of_lt (by omega), List.append_assoc, List.getElem?_append_right (Nat.le_refl _),
        List.getElem?_append_right (Nat.le_refl _), Nat.sub_self,
        List.getElem?_append_left (by simpa using hpad)] at hat
      simp [hpad] at hat

/-! ### The device -/

theorem cmdA_len {t : UInt32} (h : t.toNat < 2048) :
    ((txCmdAFirstSeg ||| txCmdALastSeg ||| (t &&& 0x7FF)) &&& 0x7FF).toNat = t.toNat := by
  have hmask : ∀ n, n &&& 0x7FF = n % 2048 := fun n => Nat.and_two_pow_sub_one_eq_mod n 11
  simp only [UInt32.toNat_and, UInt32.toNat_or, txCmdAFirstSeg, txCmdALastSeg, UInt32.reduceToNat]
  rw [Nat.and_or_distrib_right, hmask (t.toNat &&& 2047), hmask t.toNat]
  simp [Nat.mod_eq_of_lt h]

section
variable {p : List TxSegment} {payloads : List Bytes}

theorem Holds.lengths (h : Holds p payloads) : p.map (·.payload.length) = payloads.map List.length := by
  rw [← h, List.map_map]
  rfl

theorem Holds.totLen (h : Holds p payloads) (hsend : Sendable payloads) : (txTotLen p).toNat = payloads.flatten.length := by
  have hle := hsend.2
  rw [txTotLen, h.lengths, ← length_flatten_eq, UInt32.toNat_ofNat']
  omega

theorem txFrames_linkoutput (h : Holds p payloads) (hsend : Sendable payloads) (rest : List UInt32) (n : Nat) :
    txFrames (n + 1) (lan9118Linkoutput p ++ rest) =
      (txFrames n ((p.flatMap TxSegment.words ++ rest).drop (wordCount payloads.flatten.length))).map
        ((bytesOf (p.flatMap TxSegment.words)).take payloads.flatten.length :: ·) := by
  have hlen : ((txCmdAFirstSeg ||| txCmdALastSeg ||| (txTotLen p &&& 0x7FF)) &&& 0x7FF).toNat = payloads.flatten.length := by
    rw [cmdA_len, h.totLen hsend]
    rw [h.totLen hsend]
    have := hsend.2
    omega
  have henough : wordCount payloads.flatten.length ≤ (p.flatMap TxSegment.words).length := by
    rw [length_flatMap_words, h.lengths, length_flatten_eq]
    exact wordCount_sum_le _
  have htake : (bytesOf ((p.flatMap TxSegment.words ++ rest).take (wordCount payloads.flatten.length))).take
      payloads.flatten.length = (bytesOf (p.flatMap TxSegment.words)).take payloads.flatten.length := by
    have hcut : bytesOf (p.flatMap TxSegment.words) =
        bytesOf ((p.flatMap TxSegment.words).take (wordCount payloads.flatten.length)) ++
          bytesOf ((p.flatMap TxSegment.words).drop (wordCount payloads.flatten.length)) := by
      rw [← bytesOf_append, List.take_append_drop]
    have hfit : payloads.flatten.length ≤
        (bytesOf ((p.flatMap TxSegment.words).take (wordCount payloads.flatten.length))).length := by
      rw [length_bytesOf, List.length_take, Nat.min_eq_left henough]
      unfold wordCount
      omega
    rw [List.take_append_of_le_length henough, hcut, List.take_append_of_le_length hfit]
  rw [lan9118Linkoutput, List.cons_append, List.cons_append, txFrames, hlen, if_neg (by rw [List.length_append]; omega), htake]

theorem txFrames_tight (h : Holds p payloads) (hsend : Sendable payloads) (htight : Tight (payloads.map List.length))
    (rest : List UInt32) (n : Nat) :
    txFrames (n + 1) (lan9118Linkoutput p ++ rest) = (txFrames n rest).map (payloads.flatten :: ·) := by
  have hwords : (p.flatMap TxSegment.words).length = wordCount payloads.flatten.length := by
    rw [length_flatMap_words, h.lengths, htight.sum_wordCount, length_flatten_eq]
  rw [txFrames_linkoutput h hsend, take_bytesOf_tight h htight, List.drop_append_of_le_length (by omega), ← hwords,
    List.drop_length, List.nil_append]

end

/-! ### Sequences of chains -/

theorem length_le_flatMap_linkoutput (ps : List (List TxSegment)) : ps.length ≤ (ps.flatMap lan9118Linkoutput).length := by
  induction ps with
  | nil => exact Nat.le_refl _
  | cons p ps ih =>
    rw [List.flatMap_cons, List.length_append, List.length_cons]
    simp only [lan9118Linkoutput, List.length_cons]
    omega

def HoldAll (ps : List (List TxSegment)) (chains : List (List Bytes)) : Prop := List.Forall₂ Holds ps chains

theorem txFrames_of_tight {ps : List (List TxSegment)} {chains : List (List Bytes)} (h : HoldAll ps chains)
    (hsend : ∀ c ∈ chains, Sendable c) (htight : ∀ c ∈ chains, Tight (c.map List.length)) {n : Nat}
    (hn : chains.length ≤ n) : txFrames n (ps.flatMap lan9118Linkoutput) = some (chains.map List.flatten) := by
  induction h generalizing n with
  | nil => cases n <;> rfl
  | @cons p c ps chains hp _ ih =>
    obtain ⟨n, rfl⟩ : ∃ m, n = m + 1 := ⟨n - 1, by rw [List.length_cons] at hn; omega⟩
    rw [List.flatMap_cons, txFrames_tight hp (hsend c List.mem_cons_self) (htight c List.mem_cons_self),
      ih (fun c hc => hsend c (List.mem_cons_of_mem _ hc)) (fun c hc => htight c (List.mem_cons_of_mem _ hc))
        (by rw [List.length_cons] at hn; omega)]
    rfl

/-- Chains whose frames come out whatever lies beyond their segments are tight. -/
theorem tight_of_txFrames {chains : List (List Bytes)} (hsend : ∀ c ∈ chains, Sendable c)
    (h : ∀ ps, HoldAll ps chains → ∃ n, txFrames n (ps.flatMap lan9118Linkoutput) = some (chains.map List.flatten)) :
    ∀ c ∈ chains, Tight (c.map List.length) := by
  induction chains with
  | nil => simp
  | cons c chains ih =>
    have hc := hsend c List.mem_cons_self
    have zeros : ∀ payloads : List Bytes, Holds (payloads.map fun b => ⟨b, fun _ => 0⟩) payloads := fun payloads => by
      simp [Holds, Function.comp_def]
    have fuel : ∀ {p : List TxSegment} {rest : List UInt32} {n : Nat} {fs : List Bytes},
        txFrames n (lan9118Linkoutput p ++ rest) = some fs → ∃ m, n = m + 1 := by
      intro p rest n fs heq
      cases n with
      | zero => simp [lan9118Linkoutput, txFrames] at heq
      | succ m => exact ⟨m, rfl⟩
    have htight : Tight (c.map List.length) := by
      by_contra hnot
      obtain ⟨p, hp, hne⟩ := exists_take_bytesOf_ne hnot
      obtain ⟨n, hn⟩ := h (p :: chains.map fun c => c.map fun b => ⟨b, fun _ => 0⟩)
        (.cons hp (List.forall₂_map_left_iff.mpr (List.forall₂_same.mpr fun c _ => zeros c)))
      rw [List.flatMap_cons] at hn
      obtain ⟨m, rfl⟩ := fuel hn
      rw [txFrames_linkoutput hp hc] at hn
      obtain ⟨fs, -, hfs⟩ := Option.map_eq_some_iff.mp hn
      exact hne (List.cons.inj hfs).1
    refine List.forall_mem_cons.mpr ⟨htight, ih (fun c hc => hsend c (List.mem_cons_of_mem _ hc)) fun ps hps => ?_⟩
    obtain ⟨n, hn⟩ := h ((c.map fun b => ⟨b, fun _ => 0⟩) :: ps) (.cons (zeros c) hps)
    rw [List.flatMap_cons] at hn
    obtain ⟨m, rfl⟩ := fuel hn
    rw [txFrames_tight (zeros c) hc htight] at hn
    obtain ⟨fs, hm, hfs⟩ := Option.map_eq_some_iff.mp hn
    exact ⟨m, hm.trans (congrArg some (List.cons.inj hfs).2)⟩

/-- **Which chains the device can decode.** The frames of a sequence of chains come out as they are, in
    order and with no words left over, whatever lies in memory beyond the segments, exactly when in
    every chain each segment whose length is no multiple of four is followed only by empty ones. -/
theorem transmitted_iff (chains : List (List Bytes)) (hsend : ∀ c ∈ chains, Sendable c) :
    (∀ ps, HoldAll ps chains → transmitted (ps.flatMap lan9118Linkoutput) = some (chains.map List.flatten)) ↔
      ∀ c ∈ chains, Tight (c.map List.length) := by
  constructor
  · intro h
    exact tight_of_txFrames hsend fun ps hps => ⟨_, h ps hps⟩
  · intro htight ps hps
    refine txFrames_of_tight hps hsend htight ?_
    rw [← hps.length_eq]
    exact length_le_flatMap_linkoutput ps

/-- A fragment as `ip4_frag` makes it: a header of 34 bytes, then data. -/
def fragment : List Bytes := [List.replicate 34 1, List.replicate 8 2]

/-- A frame in one segment, then a frame whose first segment is full words. -/
theorem transmitted_iff_two :
    (∀ ps, HoldAll ps [[List.replicate 15 7], [List.replicate 36 1, List.replicate 9 2]] →
      transmitted (ps.flatMap lan9118Linkoutput) =
        some [List.replicate 15 7, List.replicate 36 1 ++ List.replicate 9 2]) ∧
    ¬∀ ps, HoldAll ps [fragment] → transmitted (ps.flatMap lan9118Linkoutput) = some [fragment.flatten] := by
  constructor
  · exact (transmitted_iff [[List.replicate 15 7], [List.replicate 36 1, List.replicate 9 2]] (by decide)).mpr (by decide)
  · intro h
    exact absurd ((transmitted_iff [fragment] (by decide)).mp h) (by decide)

/-- A fragment is transmitted with two bytes from beyond its header in its middle and without its last
    two. -/
theorem fragment_corrupted :
    Sendable fragment ∧ HoldAll [[⟨List.replicate 34 1, fun _ => 0⟩, ⟨List.replicate 8 2, fun _ => 0⟩]] [fragment] ∧
    transmitted ([[⟨List.replicate 34 1, fun _ => 0⟩, ⟨List.replicate 8 2, fun _ => 0⟩]].flatMap lan9118Linkoutput) =
      some [List.replicate 34 1 ++ [0, 0] ++ List.replicate 6 2] ∧
    some [List.replicate 34 1 ++ [0, 0] ++ List.replicate 6 2] ≠ some [fragment.flatten] := by
  refine ⟨by decide, .cons rfl .nil, by decide +kernel, by decide⟩

end SpeakingClock
