import SpeakingClock.Driver

/-! What `lan9118_poll` does on any device.

    The loops that read the data words take the words that are next (`NextWords`), what each operation
    keeps the whole loop keeps, and a map between two devices that goes with each operation goes with
    the loop (`Hom`). -/

namespace SpeakingClock
open Words

/-! ### Chains from the pool -/

/-- The lengths of a chain from the pool: all but the last are whole buffers. -/
theorem poolLens_spec {free n : Nat} {lens : List Nat} (h : poolLens free n = some lens) :
    lens.sum = n ∧ Tight lens ∧ ∀ l ∈ lens, l ≤ pbufPoolBufsize := by
  induction free generalizing n lens with
  | zero => cases h
  | succ free ih =>
    simp only [poolLens] at h
    split at h
    · rename_i hmore
      obtain ⟨lens', hrest, rfl⟩ := Option.map_eq_some_iff.mp h
      obtain ⟨hsum, htight, hle⟩ := ih hrest
      have hfull : min n pbufPoolBufsize = pbufPoolBufsize := by omega
      refine ⟨?_, ⟨.inl ?_, htight⟩, ?_⟩
      · rw [List.sum_cons, hsum]
        omega
      · rw [hfull]
        decide
      · intro l hl
        rcases List.mem_cons.mp hl with rfl | hl
        · omega
        · exact hle l hl
    · rename_i hlast
      cases h
      refine ⟨by simp; omega, ⟨.inr rfl, trivial⟩, ?_⟩
      intro l hl
      rw [List.mem_singleton.mp hl]
      omega

def Segment.storeAll (q : Segment) : Nat → List UInt32 → Segment
  | _, [] => q
  | i, w :: ws => (q.store i w).storeAll (i + 1) ws

section
variable (q : Segment) (i : Nat) (ws : List UInt32)

theorem len_storeAll : (q.storeAll i ws).len = q.len := by
  induction ws generalizing q i with
  | nil => rfl
  | cons w ws ih => exact ih (q.store i w) (i + 1)

theorem stores_storeAll : (q.storeAll i ws).stores = q.stores ++ List.range' i ws.length := by
  induction ws generalizing q i with
  | nil => simp [Segment.storeAll]
  | cons w ws ih =>
    rw [Segment.storeAll, ih, List.length_cons, List.range'_succ]
    simp [Segment.store]

theorem mem_storeAll (j : Nat) :
    (q.storeAll i ws).mem j = if i ≤ j then (ws[j - i]?).getD (q.mem j) else q.mem j := by
  induction ws generalizing q i with
  | nil => simp [Segment.storeAll]
  | cons w ws ih =>
    rw [Segment.storeAll, ih]
    rcases Nat.lt_trichotomy j i with hj | rfl | hj
    · have h1 : ¬i + 1 ≤ j := by omega
      have h2 : ¬i ≤ j := by omega
      simp [h1, h2, Segment.store, Function.update, Nat.ne_of_lt hj]
    · simp [Segment.store]
    · obtain ⟨k, rfl⟩ : ∃ k, j = i + 1 + k := ⟨j - (i + 1), by omega⟩
      have h1 : i ≤ i + 1 + k := by omega
      have h2 : i + 1 + k - i = k + 1 := by omega
      have h3 : i + 1 + k ≠ i := by omega
      simp [h1, h2, h3, Segment.store, Function.update]

theorem payload_storeAll (h : ws.length = wordCount q.len) : (q.storeAll 0 ws).payload = (bytesOf ws).take q.len := by
  have hmem : (List.range ws.length).map (q.storeAll 0 ws).mem = ws := by
    refine List.ext_getElem (by simp) fun j h1 h2 => ?_
    simp [mem_storeAll, h2]
  rw [Segment.payload, len_storeAll, ← h, hmem]

end

def fillSegs : List Segment → List UInt32 → List Segment
  | [], _ => []
  | q :: qs, ws => q.storeAll 0 (ws.take (wordCount q.len)) :: fillSegs qs (ws.drop (wordCount q.len))

theorem payload_fillSegs {qs : List Segment} (htight : Tight (qs.map (·.len))) {ws : List UInt32}
    (hws : ((qs.map (·.len)).map wordCount).sum ≤ ws.length) :
    (fillSegs qs ws).flatMap Segment.payload = (bytesOf ws).take (qs.map (·.len)).sum := by
  induction qs generalizing ws with
  | nil => simp [fillSegs]
  | cons q qs ih =>
    simp only [List.map_cons, List.sum_cons] at hws htight ⊢
    have hlen : (ws.take (wordCount q.len)).length = wordCount q.len := by rw [List.length_take]; omega
    have hrest : ((qs.map (·.len)).map wordCount).sum ≤ (ws.drop (wordCount q.len)).length := by
      rw [List.length_drop]
      omega
    have hle : q.len ≤ 4 * wordCount q.len := by unfold wordCount; omega
    have hcut : bytesOf ws = bytesOf (ws.take (wordCount q.len)) ++ bytesOf (ws.drop (wordCount q.len)) := by
      rw [← bytesOf_append, List.take_append_drop]
    have hbytes : (bytesOf (ws.take (wordCount q.len))).length = 4 * wordCount q.len := by rw [length_bytesOf, hlen]
    rw [fillSegs, List.flatMap_cons, payload_storeAll _ _ hlen, ih htight.tail hrest, hcut]
    rcases htight.head with hdvd | hzero
    · -- A whole number of words: the next segment goes on where this one ends.
      have hexact : 4 * wordCount q.len = q.len := by unfold wordCount; omega
      rw [List.take_append, hbytes, hexact, Nat.add_sub_cancel_left,
        List.take_of_length_le (i := q.len) (by rw [hbytes, hexact]),
        List.take_of_length_le (i := q.len + _) (by rw [hbytes, hexact]; omega)]
    · rw [hzero, Nat.add_zero, List.take_zero, List.append_nil, List.take_append_of_le_length (by rw [hbytes]; exact hle)]

theorem Alloc.chain_spec {a : Alloc} {n : Nat} {p : Chain} (h : a.chain n = some p) :
    a.ok n = true ∧ (p.segs.map (·.len)).sum = n ∧ Tight (p.segs.map (·.len)) ∧
      ∀ q ∈ p.segs, q.len ≤ pbufPoolBufsize ∧ q.stores = [] := by
  obtain ⟨lens, hlens, rfl⟩ := Option.map_eq_some_iff.mp h
  obtain ⟨hsum, htight, hle⟩ := poolLens_spec hlens
  have hmap : (lens.mapIdx fun k len => (⟨len, a.mem k, []⟩ : Segment)).map (·.len) = lens := by
    refine List.ext_getElem (by simp) fun k _ _ => ?_
    simp
  refine ⟨by simp [Alloc.ok, hlens], ?_, ?_, fun q hq => ?_⟩
  · rw [hmap, hsum]
  · rw [hmap]
    exact htight
  · obtain ⟨k, hk, rfl⟩ := List.mem_mapIdx.mp hq
    exact ⟨hle _ (List.getElem_mem hk), rfl⟩

theorem Alloc.chain_none {a : Alloc} {n : Nat} (h : a.chain n = none) : a.ok n = false := by
  rw [Alloc.chain, Option.map_eq_none_iff] at h
  simp [Alloc.ok, h]

theorem stores_fillSegs {qs : List Segment} (hqs : ∀ q ∈ qs, q.len ≤ pbufPoolBufsize ∧ q.stores = [])
    (ws : List UInt32) : ∀ q ∈ fillSegs qs ws, ∀ i ∈ q.stores, 4 * (i + 1) ≤ pbufPoolBufsize := by
  induction qs generalizing ws with
  | nil => simp [fillSegs]
  | cons q qs ih =>
    intro q' hq' i hi
    rcases List.mem_cons.mp hq' with rfl | hq'
    · obtain ⟨hlen, hstores⟩ := hqs q List.mem_cons_self
      rw [stores_storeAll, hstores, List.nil_append, List.mem_range'_1, List.length_take] at hi
      have hcount : i < wordCount q.len := by omega
      unfold wordCount at hcount
      have hsize : pbufPoolBufsize = 1536 := rfl
      omega
    · exact ih (fun q hq => hqs q (List.mem_cons_of_mem _ hq)) _ q' hq' i hi

/-! ### Reading -/

section
variable {S : Type} {R : RxOps S} {P : S → Prop}

theorem fillWords_keeps (hread : ∀ s, P s → P (R.rxDataFifo s).2) (words : UInt32) (left i : Nat) (q : Segment)
    (readWords : Nat) {s : S} (hs : P s) : P (fillWords R words left i q readWords s).2.2 := by
  induction left generalizing i q readWords s with
  | zero => exact hs
  | succ left ih =>
    rw [fillWords]
    split
    · exact ih _ _ _ (hread s hs)
    · exact hs

theorem fillChain_keeps (hread : ∀ s, P s → P (R.rxDataFifo s).2) (words : UInt32) (qs : List Segment)
    (readWords : Nat) {s : S} (hs : P s) : P (fillChain R words qs readWords s).2.2 := by
  induction qs generalizing readWords s with
  | nil => exact hs
  | cons q qs ih => exact ih _ (fillWords_keeps hread words _ 0 q readWords hs)

theorem discard_keeps (hread : ∀ s, P s → P (R.rxDataFifo s).2) (n : Nat) {s : S} (hs : P s) : P (discard R n s) := by
  induction n generalizing s with
  | zero => exact hs
  | succ n ih => exact ih (hread s hs)

/-- What an iteration can do: a status word of length 0, a frame dropped for want of a buffer, or a frame
    read and handed to lwIP, which may return it. -/
theorem pollBody_cases {s : S} (hempty : P (R.rxStatusFifo s).2)
    (hdropped : ∀ len n s', R.pbufAlloc len (R.rxStatusFifo s).2 = (none, s') → P (discard R n s'))
    (hread : ∀ len n words p s' segs err s'', R.pbufAlloc len (R.rxStatusFifo s).2 = (some p, s') →
      R.input ⟨p.id, segs⟩ (discard R n (fillChain R words p.segs 0 s').2.2) = (err, s'') →
      P (if err ≠ 0 then R.pbufFree p.id s'' else s'')) : P (pollBody R s) := by
  unfold pollBody
  dsimp only
  split
  · exact hempty
  · split
    · rename_i p s' halloc
      exact hread _ _ _ p s' _ _ _ halloc rfl
    · rename_i s' halloc
      exact hdropped _ _ s' halloc

/-- What holds before an operation holds after it. -/
structure Keeps (R : RxOps S) (P : S → Prop) : Prop where
  rxFifoInf : ∀ s, P s → P (R.rxFifoInf s).2
  rxStatusFifo : ∀ s, P s → P (R.rxStatusFifo s).2
  rxDataFifo : ∀ s, P s → P (R.rxDataFifo s).2
  pbufAlloc : ∀ len s, P s → P (R.pbufAlloc len s).2
  input : ∀ p s, P s → P (R.input p s).2
  pbufFree : ∀ n s, P s → P (R.pbufFree n s)

theorem Keeps.pollBody (h : Keeps R P) {s : S} (hs : P s) : P (pollBody R s) := by
  have hstatus := h.rxStatusFifo s hs
  refine pollBody_cases hstatus ?_ ?_
  · intro len n s' halloc
    have hs' := h.pbufAlloc len _ hstatus
    rw [halloc] at hs'
    exact discard_keeps h.rxDataFifo n hs'
  · intro len n words p s' segs err s'' halloc hinput
    have hs' := h.pbufAlloc len _ hstatus
    rw [halloc] at hs'
    have hread := discard_keeps h.rxDataFifo n (fillChain_keeps h.rxDataFifo words p.segs 0 hs')
    have hs'' := h.input ⟨p.id, segs⟩ _ hread
    rw [hinput] at hs''
    split
    · exact h.pbufFree _ _ hs''
    · exact hs''

theorem Keeps.nextHead (h : Keeps R P) {s : S} (hs : P s) : P (nextHead R s) := by
  have hinf := h.rxFifoInf s hs
  unfold SpeakingClock.nextHead
  dsimp only
  split
  · exact h.pollBody hinf
  · exact hinf

theorem Keeps.iterate (h : Keeps R P) {s : S} (hs : P s) (n : Nat) : P ((SpeakingClock.nextHead R)^[n] s) := by
  induction n with
  | zero => exact hs
  | succ n ih =>
    rw [Function.iterate_succ_apply']
    exact h.nextHead ih

/-- When each iteration shrinks `size`, the fuel beyond it does not matter. -/
theorem lan9118Poll_stable (size : S → Nat)
    (hsize : ∀ s, rxPending (R.rxFifoInf s).1 → size (pollBody R (R.rxFifoInf s).2) < size s) {n n' : Nat} {s : S}
    (hn : size s < n) (hn' : size s < n') : lan9118Poll R n s = lan9118Poll R n' s := by
  induction n generalizing n' s with
  | zero => omega
  | succ n ih =>
    obtain ⟨n', rfl⟩ : ∃ k, n' = k + 1 := ⟨n' - 1, by omega⟩
    simp only [lan9118Poll]
    split
    · rename_i hinf
      have hlt := hsize s hinf
      exact ih (hlt.trans_le (Nat.le_of_lt_succ hn)) (hlt.trans_le (Nat.le_of_lt_succ hn'))
    · rfl

end

/-! ### The words that are read -/

/-- `P ws s` says what it says of `s` and that `ws` are the next words of the data FIFO. -/
def NextWords {S : Type} (R : RxOps S) (P : List UInt32 → S → Prop) : Prop :=
  ∀ w ws s, P (w :: ws) s → (R.rxDataFifo s).1 = w ∧ P ws (R.rxDataFifo s).2

namespace NextWords
variable {S : Type} {R : RxOps S} {P : List UInt32 → S → Prop} {ws owed : List UInt32} {words : UInt32} {s : S}

theorem discarded (h : NextWords R P) (hs : P (ws ++ owed) s) : P owed (discard R ws.length s) := by
  induction ws generalizing s with
  | nil => exact hs
  | cons w ws ih => exact ih (h w _ s hs).2

theorem filledWords (h : NextWords R P) (hs : P (ws ++ owed) s) (i : Nat) (q : Segment) (readWords : Nat)
    (hwords : readWords + ws.length ≤ words.toNat) :
    ∃ s', fillWords R words ws.length i q readWords s = (q.storeAll i ws, readWords + ws.length, s') ∧ P owed s' := by
  induction ws generalizing s i q readWords with
  | nil => exact ⟨s, rfl, hs⟩
  | cons w ws ih =>
    obtain ⟨hw, hnext⟩ := h w _ s hs
    rw [List.length_cons] at hwords
    obtain ⟨s', heq, hs'⟩ := ih hnext (i + 1) (q.store i w) (readWords + 1) (by omega)
    refine ⟨s', ?_, hs'⟩
    rw [List.length_cons, fillWords, if_pos (by omega)]
    dsimp only
    rw [hw, heq, Segment.storeAll, Nat.add_assoc, Nat.add_comm 1]

theorem filledChain (h : NextWords R P) {qs : List Segment} (hs : P (ws ++ owed) s)
    (hws : ws.length = ((qs.map (·.len)).map wordCount).sum) (readWords : Nat)
    (hwords : readWords + ws.length ≤ words.toNat) :
    ∃ s', fillChain R words qs readWords s = (fillSegs qs ws, readWords + ws.length, s') ∧ P owed s' := by
  induction qs generalizing s ws readWords with
  | nil =>
    obtain rfl : ws = [] := List.length_eq_zero_iff.mp hws
    exact ⟨s, rfl, hs⟩
  | cons q qs ih =>
    simp only [List.map_cons, List.sum_cons] at hws
    have hlen : (ws.take (wordCount q.len)).length = wordCount q.len := by rw [List.length_take]; omega
    have hdrop : (ws.drop (wordCount q.len)).length = ((qs.map (·.len)).map wordCount).sum := by
      rw [List.length_drop]
      omega
    rw [← List.take_append_drop (wordCount q.len) ws, List.append_assoc] at hs
    obtain ⟨s', heq, hs'⟩ := h.filledWords hs 0 q readWords (by omega : _ ≤ words.toNat)
    obtain ⟨s'', heq', hs''⟩ := ih hs' hdrop (readWords + wordCount q.len) (by omega)
    refine ⟨s'', ?_, hs''⟩
    rw [hlen] at heq
    rw [fillChain, heq, heq', fillSegs, Nat.add_assoc, hdrop, hws]

/-- A chain with room for the first bytes of the words gets them, and the other words are read past it. -/
theorem readChain (h : NextWords R P) {qs : List Segment} (htight : Tight (qs.map (·.len))) (hs : P ws s)
    (hwords : words.toNat = ws.length) (hroom : wordCount (qs.map (·.len)).sum ≤ ws.length) :
    ∃ vs readWords s', fillChain R words qs 0 s = (fillSegs qs vs, readWords, s') ∧
      (fillSegs qs vs).flatMap Segment.payload = (bytesOf ws).take (qs.map (·.len)).sum ∧
      P [] (discard R (words.toNat - readWords) s') := by
  obtain ⟨n, hn⟩ : ∃ n, (qs.map (·.len)).sum = n := ⟨_, rfl⟩
  rw [hn] at hroom ⊢
  have hcount : ((qs.map (·.len)).map wordCount).sum = wordCount n := by rw [htight.sum_wordCount, hn]
  have hlen : (ws.take (wordCount n)).length = wordCount n := by
    rw [List.length_take]
    omega
  have hcut : ws.take (wordCount n) ++ (ws.drop (wordCount n) ++ []) = ws := by
    rw [List.append_nil, List.take_append_drop]
  rw [← hcut] at hs
  obtain ⟨s', heq, hs'⟩ := h.filledChain hs (hlen.trans hcount.symm) 0 (by omega : _ ≤ words.toNat)
  have hrest : words.toNat - (0 + (ws.take (wordCount n)).length) = (ws.drop (wordCount n)).length := by
    rw [List.length_drop]
    omega
  refine ⟨_, _, s', heq, ?_, by rw [hrest]; exact h.discarded hs'⟩
  have hfit : n ≤ (bytesOf (ws.take (wordCount n))).length := by
    rw [length_bytesOf, hlen]
    unfold wordCount
    omega
  have hcut : bytesOf ws = bytesOf (ws.take (wordCount n)) ++ bytesOf (ws.drop (wordCount n)) := by
    rw [← bytesOf_append, List.take_append_drop]
  have hbytes : (bytesOf ws).take n = (bytesOf (ws.take (wordCount n))).take n := by
    rw [hcut, List.take_append_of_le_length hfit]
  rw [payload_fillSegs htight (by omega), hn, hbytes]

end NextWords

/-! ### Maps between devices -/

/-- `g` goes with each operation. -/
structure Hom {S S' : Type} (R : RxOps S) (R' : RxOps S') (g : S → S') : Prop where
  rxFifoInf : ∀ s, R'.rxFifoInf (g s) = ((R.rxFifoInf s).1, g (R.rxFifoInf s).2)
  rxStatusFifo : ∀ s, R'.rxStatusFifo (g s) = ((R.rxStatusFifo s).1, g (R.rxStatusFifo s).2)
  rxDataFifo : ∀ s, R'.rxDataFifo (g s) = ((R.rxDataFifo s).1, g (R.rxDataFifo s).2)
  pbufAlloc : ∀ len s, R'.pbufAlloc len (g s) = ((R.pbufAlloc len s).1, g (R.pbufAlloc len s).2)
  input : ∀ p s, R'.input p (g s) = ((R.input p s).1, g (R.input p s).2)
  pbufFree : ∀ n s, R'.pbufFree n (g s) = g (R.pbufFree n s)

namespace Hom
variable {S S' : Type} {R : RxOps S} {R' : RxOps S'} {g : S → S'}

theorem fillWords (h : Hom R R' g) (words : UInt32) (left i : Nat) (q : Segment) (readWords : Nat) (s : S) :
    SpeakingClock.fillWords R' words left i q readWords (g s) =
      ((SpeakingClock.fillWords R words left i q readWords s).1,
        (SpeakingClock.fillWords R words left i q readWords s).2.1,
        g (SpeakingClock.fillWords R words left i q readWords s).2.2) := by
  induction left generalizing i q readWords s with
  | zero => rfl
  | succ left ih =>
    simp only [SpeakingClock.fillWords]
    split
    · rw [h.rxDataFifo, ih]
    · rfl

theorem fillChain (h : Hom R R' g) (words : UInt32) (qs : List Segment) (readWords : Nat) (s : S) :
    SpeakingClock.fillChain R' words qs readWords (g s) =
      ((SpeakingClock.fillChain R words qs readWords s).1, (SpeakingClock.fillChain R words qs readWords s).2.1,
        g (SpeakingClock.fillChain R words qs readWords s).2.2) := by
  induction qs generalizing readWords s with
  | nil => rfl
  | cons q qs ih => simp only [SpeakingClock.fillChain, h.fillWords, ih]

theorem discard (h : Hom R R' g) (n : Nat) (s : S) : SpeakingClock.discard R' n (g s) = g (SpeakingClock.discard R n s) := by
  induction n generalizing s with
  | zero => rfl
  | succ n ih => simp only [SpeakingClock.discard, h.rxDataFifo, ih]

theorem pollBody (h : Hom R R' g) (s : S) : SpeakingClock.pollBody R' (g s) = g (SpeakingClock.pollBody R s) := by
  simp only [SpeakingClock.pollBody, h.rxStatusFifo, h.pbufAlloc]
  split
  · rfl
  · generalize R.pbufAlloc _ _ = r
    rcases r with ⟨_ | p, s'⟩
    · exact h.discard _ s'
    · simp only [h.fillChain, h.discard, h.input]
      split
      · exact h.pbufFree _ _
      · rfl

theorem nextHead (h : Hom R R' g) (s : S) : SpeakingClock.nextHead R' (g s) = g (SpeakingClock.nextHead R s) := by
  simp only [SpeakingClock.nextHead, h.rxFifoInf]
  split
  · exact h.pollBody _
  · rfl

theorem iterate (h : Hom R R' g) (n : Nat) (s : S) :
    (SpeakingClock.nextHead R')^[n] (g s) = g ((SpeakingClock.nextHead R)^[n] s) :=
  (Function.Semiconj.iterate_right (f := g) (fun s => (h.nextHead s).symm) n s).symm

end Hom

end SpeakingClock
