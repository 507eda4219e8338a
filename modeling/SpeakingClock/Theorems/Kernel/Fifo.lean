import SpeakingClock.Kernel.Queue

/-! A queue is a bounded list of items. `Holds q xs` says that the ring of `q` has the items `xs`, oldest
    first; each function of `Kernel.Queue` does to the ring what `fifoOp` does to the list, and returns
    what `fifoOp` returns. No function writes outside the storage area. -/

namespace SpeakingClock.Kernel
open Memory
variable {T : Type}

/-! ### The list -/

/-- A new item on the list, when there is room. An overwriting item takes the place of the only one. -/
def fifoSend (n : Nat) (xs : List Bytes) (x : Bytes) : Position → Option (List Bytes)
  | .back => if xs.length < n then some (xs ++ [x]) else none
  | .front => if xs.length < n then some (x :: xs) else none
  | .overwrite => some [x]

/-- What the call does to a list of at most `n` items of `size` bytes each, and what it returns. -/
def fifoOp (n size : Nat) (xs : List Bytes) : Op → List Bytes × Result
  | .send src pos | .sendFromISR src pos =>
    match fifoSend n xs (copied src size) pos with | some ys => (ys, .pass) | none => (xs, .fail)
  | .giveFromISR => match fifoSend n xs [] .back with | some ys => (ys, .pass) | none => (xs, .fail)
  | .receive | .receiveFromISR => match xs with | x :: ys => (ys, .item x) | [] => ([], .fail)
  | .semaphoreTake => match xs with | _ :: ys => (ys, .pass) | [] => ([], .fail)
  | .peek | .peekFromISR => match xs with | x :: _ => (xs, .item x) | [] => ([], .fail)
  | .reset => ([], .pass)
  | .lock | .unlock => (xs, .pass)
  | .messagesWaiting => (xs, .count xs.length)
  | .spacesAvailable => (xs, .count (n - xs.length))

def runOps (uxNumberOfTasks : Nat) : Queue T → List Op → Option (Queue T × List Result)
  | q, [] => some (q, [])
  | q, o :: os => do
    let (q, r) ← q.op uxNumberOfTasks o
    let (q, rs) ← runOps uxNumberOfTasks q os
    return (q, r :: rs)

def fifoRun (n size : Nat) : List Bytes → List Op → List Bytes × List Result
  | xs, [] => (xs, [])
  | xs, o :: os =>
    let (xs, r) := fifoOp n size xs o
    let (xs, rs) := fifoRun n size xs os
    (xs, r :: rs)

/-! ### The ring -/

/-- The last item read was in the slot `r`, and the pointers fit that. -/
structure Queue.At (q : Queue T) (r : Nat) : Prop where
  lt : r < q.uxLength
  tail : q.pcTail = q.pcHead + (q.uxLength * q.uxItemSize : Nat)
  readFrom : q.pcReadFrom = q.pcHead + r * q.uxItemSize
  writeTo : q.pcWriteTo = q.pcHead + ((r + 1 + q.uxMessagesWaiting) % q.uxLength : Nat) * q.uxItemSize
  count_le : q.uxMessagesWaiting ≤ q.uxLength

def Queue.items (q : Queue T) (r : Nat) : List Bytes :=
  Ring.contents (Ring.item q.mem q.pcHead q.uxItemSize) q.uxLength ((r + 1) % q.uxLength) q.uxMessagesWaiting

/-- The queue holds these items, oldest first. -/
def Queue.Holds (q : Queue T) (xs : List Bytes) : Prop := ∃ r, q.At r ∧ q.items r = xs

theorem Queue.Holds.length {q : Queue T} {xs : List Bytes} (h : q.Holds xs) : xs.length = q.uxMessagesWaiting := by
  obtain ⟨r, -, rfl⟩ := h
  exact Ring.length_contents ..

theorem Queue.Holds.length_le {q : Queue T} {xs : List Bytes} (h : q.Holds xs) : xs.length ≤ q.uxLength := by
  obtain ⟨r, hat, rfl⟩ := h
  rw [Queue.items, Ring.length_contents]
  exact hat.count_le

/-- What no call changes: the storage area, and the memory outside of it. -/
structure Queue.Same (q q' : Queue T) : Prop where
  head : q'.pcHead = q.pcHead
  length : q'.uxLength = q.uxLength
  size : q'.uxItemSize = q.uxItemSize
  out : ∀ b, b < q.pcHead ∨ q.pcHead + (q.uxLength * q.uxItemSize : Nat) ≤ b → q'.mem b = q.mem b

theorem Queue.Same.refl (q : Queue T) : q.Same q := ⟨rfl, rfl, rfl, fun _ _ => rfl⟩

theorem Queue.Same.trans {q q' q'' : Queue T} (h : q.Same q') (h' : q'.Same q'') : q.Same q'' where
  head := h'.head.trans h.head
  length := h'.length.trans h.length
  size := h'.size.trans h.size
  out b hb := (h'.out b (by rwa [h.head, h.length, h.size])).trans (h.out b hb)

/-- The parts of a queue that its items are read from. -/
structure Queue.SameRing (q q' : Queue T) : Prop where
  head : q'.pcHead = q.pcHead
  writeTo : q'.pcWriteTo = q.pcWriteTo
  tail : q'.pcTail = q.pcTail
  readFrom : q'.pcReadFrom = q.pcReadFrom
  waiting : q'.uxMessagesWaiting = q.uxMessagesWaiting
  length : q'.uxLength = q.uxLength
  size : q'.uxItemSize = q.uxItemSize
  mem : q'.mem = q.mem

theorem Queue.SameRing.same {q q' : Queue T} (h : q.SameRing q') : q.Same q' :=
  ⟨h.head, h.length, h.size, fun b _ => by rw [h.mem]⟩

theorem Queue.SameRing.holds {q q' : Queue T} {xs : List Bytes} (h : q.SameRing q') (hq : q.Holds xs) : q'.Holds xs := by
  obtain ⟨r, hat, hxs⟩ := hq
  refine ⟨r, ⟨?_, ?_, ?_, ?_, ?_⟩, ?_⟩
  · rw [h.length]; exact hat.lt
  · rw [h.tail, h.head, h.length, h.size]; exact hat.tail
  · rw [h.readFrom, h.head, h.size]; exact hat.readFrom
  · rw [h.writeTo, h.head, h.waiting, h.length, h.size]; exact hat.writeTo
  · rw [h.waiting, h.length]; exact hat.count_le
  · rw [← hxs, Queue.items, Queue.items, h.mem, h.head, h.size, h.length, h.waiting]

/-! ### Copying -/

theorem length_copied (src : Nat → UInt8) (size : Nat) : (copied src size).length = size := by simp [copied]

theorem Queue.slot_lt {q : Queue T} {r : Nat} (h : q.At r) (k : Nat) : (r + 1 + k) % q.uxLength < q.uxLength :=
  Nat.mod_lt _ (by have := h.lt; omega)

/-- A store into a slot leaves the memory outside the storage area as it is. -/
theorem Queue.same_store {q q' : Queue T} {k : Nat} {x : Bytes} (hk : k < q.uxLength) (hx : x.length = q.uxItemSize)
    (head : q'.pcHead = q.pcHead) (length : q'.uxLength = q.uxLength) (size : q'.uxItemSize = q.uxItemSize)
    (mem : q'.mem = store q.mem (q.pcHead + k * q.uxItemSize) x) : q.Same q' := by
  refine ⟨head, length, size, fun b hb => ?_⟩
  have hle : (k + 1) * q.uxItemSize ≤ q.uxLength * q.uxItemSize := Nat.mul_le_mul_right _ hk
  have h0 : 0 ≤ (k : Int) * q.uxItemSize := by positivity
  rw [mem]
  apply store_of_out
  rw [hx]
  push_cast [add_mul] at hb hle ⊢
  zify at hle
  omega

theorem copyToQueue_back {q : Queue T} {xs : List Bytes} (h : q.Holds xs) (hlt : q.uxMessagesWaiting < q.uxLength)
    (src : Nat → UInt8) :
    (prvCopyDataToQueue q src .back).Holds (xs ++ [copied src q.uxItemSize]) ∧
      q.Same (prvCopyDataToQueue q src .back) := by
  obtain ⟨r, hat, rfl⟩ := h
  rcases Nat.eq_zero_or_pos q.uxItemSize with hs | hs
  · -- Nothing is copied and no pointer moves: all slots are at the head.
    rw [prvCopyDataToQueue, if_pos hs]
    refine ⟨⟨r, ⟨hat.lt, hat.tail, hat.readFrom, ?_, hlt⟩, ?_⟩, rfl, rfl, rfl, fun _ _ => rfl⟩
    · simpa [hs] using hat.writeTo
    · simp only [Queue.items]
      rw [Ring.contents_pushBack hlt fun _ _ => rfl]
      simp [Ring.item, copied, load, hs]
  · rw [prvCopyDataToQueue, if_neg (by omega), if_pos rfl]
    have hk : (r + 1 + q.uxMessagesWaiting) % q.uxLength < q.uxLength := Queue.slot_lt hat _
    refine ⟨⟨r, ⟨hat.lt, hat.tail, hat.readFrom, ?_, hlt⟩, ?_⟩,
      Queue.same_store hk (length_copied ..) rfl rfl rfl (by rw [← hat.writeTo])⟩
    · dsimp only
      rw [hat.writeTo, hat.tail, Ring.advance hs hk, Nat.mod_add_mod, Nat.add_assoc (r + 1)]
    · simp only [Queue.items, hat.writeTo]
      have hfirst : ((r + 1) % q.uxLength + q.uxMessagesWaiting) % q.uxLength =
          (r + 1 + q.uxMessagesWaiting) % q.uxLength := Nat.mod_add_mod ..
      rw [Ring.contents_pushBack hlt fun i hi => ?_, hfirst, Ring.item_store_self (length_copied ..)]
      exact Ring.item_store_of_ne (length_copied ..) (by rwa [← hfirst])

/-- The slot before `r`, and the one after that again. -/
theorem retreat_advance {n r : Nat} (hr : r < n) : ((r + n - 1) % n + 1) % n = r := by
  rw [Nat.mod_add_mod, show r + n - 1 + 1 = r + n by omega, Nat.add_mod_right, Nat.mod_eq_of_lt hr]

theorem copyToQueue_front {q : Queue T} {xs : List Bytes} (h : q.Holds xs) (hlt : q.uxMessagesWaiting < q.uxLength)
    (src : Nat → UInt8) :
    (prvCopyDataToQueue q src .front).Holds (copied src q.uxItemSize :: xs) ∧
      q.Same (prvCopyDataToQueue q src .front) := by
  obtain ⟨r, hat, rfl⟩ := h
  rcases Nat.eq_zero_or_pos q.uxItemSize with hs | hs
  · rw [prvCopyDataToQueue, if_pos hs]
    refine ⟨⟨r, ⟨hat.lt, hat.tail, hat.readFrom, ?_, hlt⟩, ?_⟩, rfl, rfl, rfl, fun _ _ => rfl⟩
    · simpa [hs] using hat.writeTo
    · simp only [Queue.items]
      rw [Ring.contents_succ]
      simp [Ring.contents, Ring.item, copied, load, hs]
  · rw [prvCopyDataToQueue, if_neg (by omega), if_neg (by decide)]
    have hpos : 0 < q.uxLength := Nat.lt_of_le_of_lt (Nat.zero_le _) hat.lt
    refine ⟨⟨(r + q.uxLength - 1) % q.uxLength, ⟨Nat.mod_lt _ hpos, hat.tail, ?_, ?_, ?_⟩, ?_⟩,
      Queue.same_store hat.lt (length_copied ..) rfl rfl rfl (by rw [← hat.readFrom])⟩
    · dsimp only
      rw [hat.readFrom, hat.tail, Ring.retreat hs hat.lt]
    · dsimp only
      rw [hat.writeTo, if_neg (by simp), ← Nat.mod_add_mod ((r + q.uxLength - 1) % q.uxLength + 1),
        retreat_advance hat.lt, Nat.add_assoc, Nat.add_comm 1]
    · dsimp only
      rw [if_neg (by simp)]
      exact hlt
    · simp only [Queue.items, hat.readFrom, retreat_advance hat.lt]
      rw [if_neg (by simp), Ring.contents_pushFront hlt hat.lt fun i hi => ?_,
        Ring.item_store_self (length_copied ..)]
      exact Ring.item_store_of_ne (length_copied ..) hi

theorem copyToQueue_overwrite {q : Queue T} {xs : List Bytes} (h : q.Holds xs) (hl : q.uxLength = 1)
    (hs : q.uxItemSize ≠ 0) (src : Nat → UInt8) :
    (prvCopyDataToQueue q src .overwrite).Holds [copied src q.uxItemSize] ∧
      q.Same (prvCopyDataToQueue q src .overwrite) := by
  obtain ⟨r, hat, rfl⟩ := h
  obtain rfl : r = 0 := by have := hat.lt; omega
  have hcount := hat.count_le
  have hsp : 0 < q.uxItemSize := Nat.pos_of_ne_zero hs
  rw [prvCopyDataToQueue, if_neg hs, if_neg (by decide)]
  -- There is one slot, and one item in it afterwards, whether there was one before or not.
  have hwaiting : (if q.uxMessagesWaiting > 0 then q.uxMessagesWaiting - 1 else q.uxMessagesWaiting) = 0 := by
    split <;> omega
  simp only [true_and, hwaiting]
  refine ⟨⟨0, ⟨hat.lt, hat.tail, ?_, ?_, ?_⟩, ?_⟩,
    Queue.same_store hat.lt (length_copied ..) rfl rfl rfl (by rw [← hat.readFrom])⟩
  · dsimp only
    rw [hat.readFrom, hat.tail, Ring.retreat hsp hat.lt, hl]
  · dsimp only
    rw [hat.writeTo, hl]
    simp [Nat.mod_one]
  · exact hat.lt
  · simp only [Queue.items, hat.readFrom, hl]
    rw [Ring.contents_succ, Nat.mod_one, Ring.contents_zero, Ring.item_store_self (length_copied ..)]

theorem copyFromQueue {q : Queue T} {x : Bytes} {xs : List Bytes} (h : q.Holds (x :: xs)) :
    (prvCopyDataFromQueue q).1 = x ∧
      { (prvCopyDataFromQueue q).2 with uxMessagesWaiting := q.uxMessagesWaiting - 1 }.Holds xs ∧
      q.Same { (prvCopyDataFromQueue q).2 with uxMessagesWaiting := q.uxMessagesWaiting - 1 } := by
  obtain ⟨r, hat, hxs⟩ := h
  obtain ⟨count, hcount⟩ : ∃ count, q.uxMessagesWaiting = count + 1 := by
    refine Nat.exists_eq_succ_of_ne_zero fun h0 => ?_
    rw [Queue.items, h0, Ring.contents_zero] at hxs
    cases hxs
  rw [Queue.items, hcount, Ring.contents_succ, Nat.mod_mod, List.cons.injEq] at hxs
  have hle := hat.count_le
  rcases Nat.eq_zero_or_pos q.uxItemSize with hs | hs
  · rw [prvCopyDataFromQueue, if_neg (by simpa using hs)]
    refine ⟨?_, ⟨r, ⟨hat.lt, hat.tail, hat.readFrom, ?_, ?_⟩, ?_⟩, rfl, rfl, rfl, fun _ _ => rfl⟩
    · rw [← hxs.1]
      simp [Ring.item, load, hs]
    · simpa [hs] using hat.writeTo
    · dsimp only
      omega
    · rw [← hxs.2]
      simp [Queue.items, hcount, Ring.contents, Ring.item, load, hs]
  · rw [prvCopyDataFromQueue, if_pos (by omega)]
    have hread : (if q.pcReadFrom + q.uxItemSize ≥ q.pcTail then q.pcHead else q.pcReadFrom + q.uxItemSize) =
        q.pcHead + ((r + 1) % q.uxLength : Nat) * q.uxItemSize := by
      rw [hat.readFrom, hat.tail, Ring.advance hs hat.lt]
    simp only [hread]
    refine ⟨hxs.1, ⟨(r + 1) % q.uxLength, ⟨Queue.slot_lt hat 0, hat.tail, rfl, ?_, ?_⟩, ?_⟩,
      rfl, rfl, rfl, fun _ _ => rfl⟩
    · dsimp only
      rw [hat.writeTo, hcount, Nat.add_assoc ((r + 1) % q.uxLength), Nat.mod_add_mod, Nat.add_sub_cancel,
        Nat.add_comm 1 count]
    · dsimp only
      omega
    · simp only [Queue.items, hcount, Nat.add_sub_cancel]
      exact hxs.2

/-! ### Each call -/

theorem Queue.sameRing_wakeReceiver (q : Queue T) : q.SameRing q.wakeReceiver.1 := ⟨rfl, rfl, rfl, rfl, rfl, rfl, rfl, rfl⟩

theorem Queue.sameRing_wakeSender (q : Queue T) : q.SameRing q.wakeSender.1 := ⟨rfl, rfl, rfl, rfl, rfl, rfl, rfl, rfl⟩

theorem Queue.sameRing_unlock (q : Queue T) : q.SameRing q.unlockTx.1.unlockRx.1 :=
  ⟨rfl, rfl, rfl, rfl, rfl, rfl, rfl, rfl⟩

/-- The queue after a call holds these items, in the same storage area. -/
def Queue.Became (q : Queue T) (xs : List Bytes) (q' : Queue T) : Prop := q'.Holds xs ∧ q.Same q'

theorem Queue.Became.ring {q q' q'' : Queue T} {xs : List Bytes} (h : q.Became xs q') (hr : q'.SameRing q'') :
    q.Became xs q'' := ⟨hr.holds h.1, h.2.trans hr.same⟩

theorem Queue.Holds.became {q q' : Queue T} {xs : List Bytes} (h : q.Holds xs) (hr : q.SameRing q') :
    q.Became xs q' := ⟨hr.holds h, hr.same⟩

/-- A full queue takes no item, another one takes it where the list does. -/
theorem Queue.Holds.copyToQueue {q : Queue T} {xs : List Bytes} (h : q.Holds xs) (src : Nat → UInt8) {pos : Position}
    (hpos : pos = .overwrite → q.uxLength = 1 ∧ q.uxItemSize ≠ 0) :
    (fifoSend q.uxLength xs (copied src q.uxItemSize) pos = none ∧
        ¬(q.uxMessagesWaiting < q.uxLength ∨ pos = .overwrite)) ∨
      ∃ ys, fifoSend q.uxLength xs (copied src q.uxItemSize) pos = some ys ∧
        (q.uxMessagesWaiting < q.uxLength ∨ pos = .overwrite) ∧ q.Became ys (prvCopyDataToQueue q src pos) := by
  have hlen := h.length
  cases pos with
  | back =>
    rcases Nat.lt_or_ge q.uxMessagesWaiting q.uxLength with hlt | hge
    · exact .inr ⟨_, by rw [fifoSend, if_pos (by omega)], .inl hlt, copyToQueue_back h hlt src⟩
    · exact .inl ⟨by rw [fifoSend, if_neg (by omega)], by simp; omega⟩
  | front =>
    rcases Nat.lt_or_ge q.uxMessagesWaiting q.uxLength with hlt | hge
    · exact .inr ⟨_, by rw [fifoSend, if_pos (by omega)], .inl hlt, copyToQueue_front h hlt src⟩
    · exact .inl ⟨by rw [fifoSend, if_neg (by omega)], by simp; omega⟩
  | overwrite =>
    obtain ⟨hl, hs⟩ := hpos rfl
    exact .inr ⟨_, rfl, .inr rfl, copyToQueue_overwrite h hl hs src⟩

theorem incrementLock_some {uxNumberOfTasks : Nat} (hn : uxNumberOfTasks ≤ 127) (lock : Int) :
    ∃ lock', incrementLock uxNumberOfTasks lock = some lock' := by
  unfold incrementLock queueInt8Max
  split
  · rw [if_neg (by omega)]
    exact ⟨_, rfl⟩
  · exact ⟨_, rfl⟩

theorem Queue.posted_some {uxNumberOfTasks : Nat} (hn : uxNumberOfTasks ≤ 127) (q : Queue T) :
    ∃ q' t, q.posted uxNumberOfTasks = some (q', t) ∧ q.SameRing q' := by
  unfold Queue.posted
  split
  · exact ⟨_, _, rfl, q.sameRing_wakeReceiver⟩
  · obtain ⟨lock, hlock⟩ := incrementLock_some hn q.cTxLock
    exact ⟨{ q with cTxLock := lock }, none, by simp [prvIncrementQueueTxLock, hlock], ⟨rfl, rfl, rfl, rfl, rfl, rfl, rfl, rfl⟩⟩

/-- An item that is read and then left where it was. -/
theorem Queue.Holds.peek {q : Queue T} {x : Bytes} {xs : List Bytes} (h : q.Holds (x :: xs)) :
    (prvCopyDataFromQueue q).1 = x ∧
      q.SameRing { (prvCopyDataFromQueue q).2 with pcReadFrom := q.pcReadFrom } := by
  refine ⟨(copyFromQueue h).1, ?_⟩
  unfold prvCopyDataFromQueue
  split <;> exact ⟨rfl, rfl, rfl, rfl, rfl, rfl, rfl, rfl⟩

theorem Queue.Holds.reset {q : Queue T} {xs : List Bytes} (h : q.Holds xs)
    (hsize : q.uxItemSize ≤ sizeMax / q.uxLength) :
    (xQueueGenericReset q false).1 = true ∧ q.Became [] (xQueueGenericReset q false).2.1 := by
  obtain ⟨r, hat, -⟩ := h
  have hpos : 1 ≤ q.uxLength := by have := hat.lt; omega
  rw [xQueueGenericReset, if_pos ⟨hpos, hsize⟩, if_neg (by simp)]
  refine ⟨rfl, ⟨q.uxLength - 1, ⟨?_, rfl, ?_, ?_, Nat.zero_le _⟩, rfl⟩, rfl, rfl, rfl, fun _ _ => rfl⟩
  · show q.uxLength - 1 < q.uxLength
    omega
  · show q.pcHead + ((q.uxLength - 1) * q.uxItemSize : Nat) = q.pcHead + (q.uxLength - 1 : Nat) * q.uxItemSize
    push_cast
    rfl
  · show q.pcHead = q.pcHead + ((q.uxLength - 1 + 1 + 0) % q.uxLength : Nat) * q.uxItemSize
    rw [Nat.add_zero, Nat.sub_add_cancel hpos, Nat.mod_self]
    simp

theorem Queue.Holds.trySend {q : Queue T} {xs : List Bytes} (h : q.Holds xs) (src : Nat → UInt8) {pos : Position}
    (hpos : pos = .overwrite → q.uxLength = 1 ∧ q.uxItemSize ≠ 0) :
    (fifoSend q.uxLength xs (copied src q.uxItemSize) pos = none ∧ q.trySend src pos = none) ∨
      ∃ ys r, fifoSend q.uxLength xs (copied src q.uxItemSize) pos = some ys ∧ q.trySend src pos = some r ∧
        q.Became ys r.1 := by
  rcases h.copyToQueue src hpos with ⟨hf, hc⟩ | ⟨ys, hf, hc, hb⟩
  · exact .inl ⟨hf, if_neg hc⟩
  · exact .inr ⟨ys, _, hf, if_pos hc, hb.ring (Queue.sameRing_wakeReceiver _)⟩

/-- To the back: when the queue is not full. -/
theorem Queue.Holds.trySend_back {q : Queue T} {xs : List Bytes} (h : q.Holds xs) (src : Nat → UInt8) :
    (¬xs.length < q.uxLength ∧ q.trySend src .back = none) ∨
      ∃ r, xs.length < q.uxLength ∧ q.trySend src .back = some r ∧
        q.Became (xs ++ [copied src q.uxItemSize]) r.1 := by
  have hback : Position.back = .overwrite → q.uxLength = 1 ∧ q.uxItemSize ≠ 0 := by simp
  rcases h.trySend src hback with ⟨hf, hnone⟩ | ⟨ys, r, hf, hsome, hb⟩
  · exact .inl ⟨by simpa [fifoSend] using hf, hnone⟩
  · rw [fifoSend] at hf
    split at hf
    · rename_i hlt
      cases hf
      exact .inr ⟨r, hlt, hsome, hb⟩
    · cases hf

theorem Queue.Holds.tryReceive {q : Queue T} {x : Bytes} {xs : List Bytes} (h : q.Holds (x :: xs)) :
    ∃ r, q.tryReceive = some r ∧ r.1 = x ∧ q.Became xs r.2.1 := by
  obtain ⟨hx, hb⟩ := copyFromQueue h
  have hpos : q.uxMessagesWaiting > 0 := by
    rw [← h.length]
    exact Nat.succ_pos _
  exact ⟨_, if_pos hpos, hx, Queue.Became.ring hb (Queue.sameRing_wakeSender _)⟩

theorem Queue.Holds.trySemaphoreTake {q : Queue T} {x : Bytes} {xs : List Bytes} (h : q.Holds (x :: xs))
    (hs : q.uxItemSize = 0) : ∃ r, q.trySemaphoreTake = some r ∧ q.Became xs r.1 := by
  obtain ⟨-, hb⟩ := copyFromQueue h
  rw [prvCopyDataFromQueue, if_neg (by simpa using hs)] at hb
  have hpos : q.uxMessagesWaiting > 0 := by
    rw [← h.length]
    exact Nat.succ_pos _
  exact ⟨_, if_pos hpos, Queue.Became.ring hb (Queue.sameRing_wakeSender _)⟩

theorem Queue.Holds.empty {q : Queue T} (h : q.Holds []) : ¬q.uxMessagesWaiting > 0 := by
  rw [← h.length]
  exact Nat.not_lt_zero _

/-- One call does to the ring what it does to the list. -/
theorem Queue.Holds.op {q : Queue T} {xs : List Bytes} (h : q.Holds xs) {o : Op}
    (ho : o.Allowed q.uxLength q.uxItemSize) (hsize : q.uxItemSize ≤ sizeMax / q.uxLength) {uxNumberOfTasks : Nat}
    (hn : uxNumberOfTasks ≤ 127) :
    ∃ q', q.op uxNumberOfTasks o = some (q', (fifoOp q.uxLength q.uxItemSize xs o).2) ∧
      q.Became (fifoOp q.uxLength q.uxItemSize xs o).1 q' := by
  have hlen := h.length
  cases o with
  | send src pos =>
    rcases h.trySend src ho with ⟨hf, hc⟩ | ⟨ys, r, hf, hc, hb⟩
    · exact ⟨q, by simp [Queue.op, fifoOp, hf, hc], by simpa [fifoOp, hf] using ⟨h, .refl q⟩⟩
    · exact ⟨r.1, by simp [Queue.op, fifoOp, hf, hc], by simpa [fifoOp, hf] using hb⟩
  | sendFromISR src pos =>
    rcases h.copyToQueue src ho with ⟨hf, hc⟩ | ⟨ys, hf, hc, hb⟩
    · exact ⟨q, by simp [Queue.op, xQueueGenericSendFromISR, fifoOp, hf, hc, Result.ofBool],
        by simpa [fifoOp, hf] using ⟨h, .refl q⟩⟩
    · obtain ⟨q', t, hq', hr⟩ := Queue.posted_some hn (prvCopyDataToQueue q src pos)
      refine ⟨q', by simp [Queue.op, xQueueGenericSendFromISR, fifoOp, hf, if_pos hc, hq', Result.ofBool], ?_⟩
      rw [fifoOp, hf]
      exact hb.ring hr
  | giveFromISR =>
    -- A semaphore is given as an item without bytes is sent to the back.
    have hs : q.uxItemSize = 0 := ho
    have hcopy : ∀ src, prvCopyDataToQueue q src .back = { q with uxMessagesWaiting := q.uxMessagesWaiting + 1 } :=
      fun src => by rw [prvCopyDataToQueue, if_pos hs]
    have hnil : copied (fun _ => 0) q.uxItemSize = [] := by simp [copied, hs]
    have hback : Position.back = .overwrite → q.uxLength = 1 ∧ q.uxItemSize ≠ 0 := by simp
    rcases h.copyToQueue (fun _ => 0) hback with ⟨hf, hc⟩ | ⟨ys, hf, hc, hb⟩
    · rw [hnil] at hf
      simp only [reduceCtorEq, or_false] at hc
      exact ⟨q, by simp [Queue.op, xQueueGiveFromISR, fifoOp, hf, hc, Result.ofBool],
        by simpa [fifoOp, hf] using ⟨h, .refl q⟩⟩
    · rw [hnil] at hf
      simp only [reduceCtorEq, or_false] at hc
      rw [hcopy] at hb
      obtain ⟨q', t, hq', hr⟩ := Queue.posted_some hn { q with uxMessagesWaiting := q.uxMessagesWaiting + 1 }
      refine ⟨q', by simp [Queue.op, xQueueGiveFromISR, fifoOp, hf, if_pos hc, hq', Result.ofBool], ?_⟩
      rw [fifoOp, hf]
      exact hb.ring hr
  | receive =>
    cases xs with
    | nil => exact ⟨q, by simp [Queue.op, Queue.tryReceive, fifoOp, h.empty], h, .refl q⟩
    | cons x xs =>
      obtain ⟨r, hr, hx, hb⟩ := h.tryReceive
      exact ⟨r.2.1, by simp [Queue.op, fifoOp, hr, hx], hb⟩
  | receiveFromISR =>
    cases xs with
    | nil => exact ⟨q, by simp [Queue.op, xQueueReceiveFromISR, fifoOp, ← hlen, Result.ofItem], h, .refl q⟩
    | cons x xs =>
      obtain ⟨hx, hb⟩ := copyFromQueue h
      have hpos : q.uxMessagesWaiting > 0 := by rw [← hlen]; exact Nat.succ_pos _
      simp only [Queue.op, xQueueReceiveFromISR, fifoOp, if_pos hpos, hx]
      split
      · exact ⟨_, rfl, Queue.Became.ring hb (Queue.sameRing_wakeSender _)⟩
      · obtain ⟨lock, hlock⟩ := incrementLock_some hn (prvCopyDataFromQueue q).2.cRxLock
        refine ⟨_, by simp only [prvIncrementQueueRxLock, hlock, Option.map_some]; rfl, ?_⟩
        exact Queue.Became.ring hb ⟨rfl, rfl, rfl, rfl, rfl, rfl, rfl, rfl⟩
  | semaphoreTake =>
    have hs : q.uxItemSize = 0 := ho
    cases xs with
    | nil => exact ⟨q, by simp [Queue.op, Queue.trySemaphoreTake, fifoOp, h.empty], h, .refl q⟩
    | cons x xs =>
      obtain ⟨r, hr, hb⟩ := h.trySemaphoreTake hs
      exact ⟨r.1, by simp [Queue.op, fifoOp, hr], hb⟩
  | peek =>
    cases xs with
    | nil => exact ⟨q, by simp [Queue.op, Queue.tryPeek, fifoOp, ← hlen], h, .refl q⟩
    | cons x xs =>
      obtain ⟨hx, hr⟩ := h.peek
      have hpos : q.uxMessagesWaiting > 0 := by rw [← hlen]; exact Nat.succ_pos _
      exact ⟨_, by simp only [Queue.op, Queue.tryPeek, fifoOp, if_pos hpos, hx],
        (h.became hr).ring (Queue.sameRing_wakeReceiver _)⟩
  | peekFromISR =>
    cases xs with
    | nil => exact ⟨q, by simp [Queue.op, xQueuePeekFromISR, fifoOp, ← hlen, Result.ofItem], h, .refl q⟩
    | cons x xs =>
      obtain ⟨hx, hr⟩ := h.peek
      have hpos : q.uxMessagesWaiting > 0 := by rw [← hlen]; exact Nat.succ_pos _
      exact ⟨_, by simp only [Queue.op, xQueuePeekFromISR, fifoOp, if_pos hpos, hx, Result.ofItem], h.became hr⟩
  | reset =>
    obtain ⟨hp, hb⟩ := h.reset hsize
    exact ⟨_, by simp only [Queue.op, hp, fifoOp, Result.ofBool, if_true], hb⟩
  | lock => exact ⟨_, rfl, h.became ⟨rfl, rfl, rfl, rfl, rfl, rfl, rfl, rfl⟩⟩
  | unlock => exact ⟨_, rfl, h.became q.sameRing_unlock⟩
  | messagesWaiting => exact ⟨q, by simp [Queue.op, fifoOp, uxQueueMessagesWaiting, hlen], h, .refl q⟩
  | spacesAvailable => exact ⟨q, by simp [Queue.op, fifoOp, uxQueueSpacesAvailable, hlen], h, .refl q⟩

/-! ### Runs -/

/-- A new queue is empty, and its storage area comes right after the queue itself. -/
theorem create_holds {n size : Nat} {p : Int} {mem : Int → UInt8} {q : Queue T}
    (h : xQueueGenericCreate n size (some p) mem = some q) :
    q.Holds [] ∧ q.uxLength = n ∧ q.uxItemSize = size ∧ q.mem = mem ∧ size ≤ sizeMax / n ∧
      (size ≠ 0 → q.pcHead = p + sizeofQueue) := by
  unfold xQueueGenericCreate at h
  split at h
  · rename_i hc
    rw [Option.map_some, Option.some.injEq] at h
    subst h
    rw [prvInitialiseNewQueue, xQueueGenericReset, if_pos ⟨hc.1, hc.2.1⟩, if_pos rfl]
    refine ⟨⟨n - 1, ⟨Nat.sub_lt hc.1 Nat.one_pos, rfl, ?_, ?_, Nat.zero_le _⟩, rfl⟩, rfl, rfl, rfl, hc.2.1, fun hs => if_neg hs⟩
    · push_cast
      rfl
    · show _ = _ + ((n - 1 + 1 + 0) % n : Nat) * (size : Int)
      rw [Nat.add_zero, Nat.sub_add_cancel hc.1, Nat.mod_self]
      simp
  · cases h

theorem Queue.Holds.runOps {q : Queue T} {xs : List Bytes} (h : q.Holds xs) {os : List Op}
    (hos : ∀ o ∈ os, o.Allowed q.uxLength q.uxItemSize) (hsize : q.uxItemSize ≤ sizeMax / q.uxLength)
    {uxNumberOfTasks : Nat} (hn : uxNumberOfTasks ≤ 127) :
    ∃ q', runOps uxNumberOfTasks q os = some (q', (fifoRun q.uxLength q.uxItemSize xs os).2) ∧
      q.Became (fifoRun q.uxLength q.uxItemSize xs os).1 q' := by
  induction os generalizing q xs with
  | nil => exact ⟨q, rfl, h, .refl q⟩
  | cons o os ih =>
    obtain ⟨q₁, hop, hb⟩ := h.op (hos o List.mem_cons_self) hsize hn
    have hl := hb.2.length
    have hs := hb.2.size
    obtain ⟨q₂, hrun, hb₂⟩ := ih hb.1 (fun o' ho' => by rw [hl, hs]; exact hos o' (List.mem_cons_of_mem _ ho'))
      (by rwa [hl, hs])
    rw [hl, hs] at hrun hb₂
    exact ⟨q₂, by simp [Kernel.runOps, hop, hrun, fifoRun], hb₂.1, hb.2.trans hb₂.2⟩

/-- A new queue of any length and item size returns for every list of calls, from tasks and interrupts,
    what a bounded list of items returns, and nothing outside its storage area is ever written. -/
theorem queue_runs_as_fifo {n size : Nat} {p : Int} {mem : Int → UInt8} {q : Queue T}
    (hq : xQueueGenericCreate n size (some p) mem = some q) {os : List Op} (hos : ∀ o ∈ os, o.Allowed n size)
    {uxNumberOfTasks : Nat} (hn : uxNumberOfTasks ≤ 127) :
    ∃ q', runOps uxNumberOfTasks q os = some (q', (fifoRun n size [] os).2) ∧
      q'.Holds (fifoRun n size [] os).1 ∧
      ∀ b, b < p + sizeofQueue ∨ p + sizeofQueue + (n * size : Nat) ≤ b → q'.mem b = mem b := by
  obtain ⟨hempty, rfl, rfl, rfl, hsize, hhead⟩ := create_holds hq
  obtain ⟨q', hrun, hholds, hsame⟩ := hempty.runOps hos hsize hn
  refine ⟨q', hrun, hholds, fun b hb => hsame.out b ?_⟩
  rcases Nat.eq_zero_or_pos q.uxItemSize with hs | hs
  · -- An area without bytes: every address is outside.
    rw [hs] at hb ⊢
    push_cast
    omega
  · rwa [hhead (by omega)]

/-- Two slots of one byte: a third item does not fit, and items come out in the order they went in. -/
theorem queue_runs_as_fifo_two : ∃ q : Queue Unit, xQueueGenericCreate 2 1 (some 0x20000000) (fun _ => 0) = some q ∧
    ∃ q', runOps 5 q [.send (fun _ => 7) .back, .send (fun _ => 8) .back, .send (fun _ => 9) .back, .receive,
        .sendFromISR (fun _ => 9) .back, .receive, .peek, .receive, .receive] =
      some (q', [.pass, .pass, .fail, .item [7], .pass, .item [8], .item [9], .item [9], .fail]) := by
  refine ⟨_, rfl, ?_⟩
  have hos : ∀ o ∈ ([.send (fun _ => 7) .back, .send (fun _ => 8) .back, .send (fun _ => 9) .back, .receive,
      .sendFromISR (fun _ => 9) .back, .receive, .peek, .receive, .receive] : List Op), o.Allowed 2 1 := by
    simp [Op.Allowed]
  obtain ⟨q', hrun, -⟩ := queue_runs_as_fifo (T := Unit) (p := 0x20000000) rfl hos (show 5 ≤ 127 by decide)
  exact ⟨q', hrun⟩

end SpeakingClock.Kernel
