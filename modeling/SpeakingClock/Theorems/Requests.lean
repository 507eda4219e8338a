import SpeakingClock.Theorems.Schedule

/-! No time request is lost, and none is made up. The semaphore is full exactly when it was given since
    the last take; each round begins with a give after the take before, and makes one to three queries,
    up to the first that succeeds. -/

namespace SpeakingClock

/-! ### Gives and takes -/

/-- `key_task` gave the semaphore after the last take. -/
def GivenSinceTake (h : List Event) : Prop := ∃ a b, h = a ++ .gave :: b ∧ .took ∉ b

theorem split_of_not_mem {h es a b : List Event} {e : Event} (he : e ∉ es) (heq : h ++ es = a ++ e :: b) :
    ∃ b', h = a ++ e :: b' ∧ b = b' ++ es := by
  rcases List.append_eq_append_iff.mp heq with ⟨c, rfl, hes⟩ | ⟨c, rfl, hb⟩
  · exact absurd (hes ▸ by simp) he
  · cases c with
    | nil =>
      simp only [List.nil_append] at hb
      exact absurd (hb ▸ by simp) he
    | cons x c =>
      obtain ⟨rfl, rfl⟩ := List.cons.inj hb
      exact ⟨c, rfl, rfl⟩

theorem givenSinceTake_append {h es : List Event} (hgave : .gave ∉ es) (htook : .took ∉ es) :
    GivenSinceTake (h ++ es) ↔ GivenSinceTake h := by
  constructor
  · rintro ⟨a, b, heq, hb⟩
    obtain ⟨b', rfl, rfl⟩ := split_of_not_mem hgave heq
    exact ⟨a, b', rfl, fun hm => hb (List.mem_append_left _ hm)⟩
  · rintro ⟨a, b, rfl, hb⟩
    exact ⟨a, b ++ es, by simp, by simp [hb, htook]⟩

theorem givenSinceTake_gave (h : List Event) : GivenSinceTake (h ++ [.gave]) := ⟨h, [], rfl, by simp⟩

theorem not_givenSinceTake_took (h : List Event) : ¬GivenSinceTake (h ++ [.took]) := by
  rintro ⟨a, b, heq, hb⟩
  obtain ⟨b', -, rfl⟩ := split_of_not_mem (e := Event.gave) (by simp) heq
  simp at hb

/-- How requests stand. -/
structure Requested (s : State) : Prop where
  sem : s.sem = true ↔ GivenSinceTake s.history
  takes : ∀ a b, s.history = a ++ .took :: b → GivenSinceTake a
  presses : ∀ a b, s.history = a ++ .accepted :: b → .took ∈ b ∨ s.sem = true ∨ s.key.pc = .give
  gives : s.history.count .gave + (if s.key.pc = .give then 1 else 0) = s.history.count .accepted
  merged : s.history.count .took + s.sem.toNat ≤ s.history.count .gave

section
variable {s t : State}

theorem Requested.quiet (h : Requested s) {es : List Event} (hhist : t.history = s.history ++ es)
    (haccepted : .accepted ∉ es) (hgave : .gave ∉ es) (htook : .took ∉ es) (hsem : t.sem = s.sem)
    (hkey : t.key.pc = .give ↔ s.key.pc = .give) : Requested t where
  sem := by rw [hsem, hhist, givenSinceTake_append hgave htook, h.sem]
  takes a b heq := by
    obtain ⟨b', hb', -⟩ := split_of_not_mem htook (hhist ▸ heq)
    exact h.takes a b' hb'
  presses a b heq := by
    obtain ⟨b', hb', rfl⟩ := split_of_not_mem haccepted (hhist ▸ heq)
    rw [hsem, hkey]
    exact (h.presses a b' hb').imp_left fun hm => List.mem_append_left _ hm
  gives := by
    simp only [hhist, List.count_append, List.count_eq_zero_of_not_mem haccepted,
      List.count_eq_zero_of_not_mem hgave, hkey]
    exact h.gives
  merged := by
    simp only [hhist, List.count_append, List.count_eq_zero_of_not_mem htook, List.count_eq_zero_of_not_mem hgave, hsem]
    exact h.merged

theorem loopEnd_quiet (retries : Nat) :
    .accepted ∉ loopEnd retries ∧ .gave ∉ loopEnd retries ∧ .took ∉ loopEnd retries := by
  unfold loopEnd
  split <;> simp

theorem Requested.step {a : Action} (h : Requested s) (hstep : Step s a t) : Requested t := by
  cases hstep with
  | keyPutc | ntpPutc | speechPutc | ntpMove | close =>
    exact h.quiet (List.append_nil _).symm (by simp) (by simp) (by simp) rfl .rfl
  | keyIgnore rx pc | keyWake pc =>
    exact h.quiet (List.append_nil _).symm (by simp) (by simp) (by simp) rfl (by simp [pc])
  | answered | retry | receive | done => exact h.quiet rfl (by simp) (by simp) (by simp) rfl .rfl
  | giveUp =>
    obtain ⟨haccepted, hgave, htook⟩ := loopEnd_quiet 0
    exact h.quiet rfl (by simp [haccepted]) (by simp [hgave]) (by simp [htook]) rfl .rfl
  | @ntpSend retries | @ntpSendTimeout retries =>
    obtain ⟨haccepted, hgave, htook⟩ := loopEnd_quiet retries
    exact h.quiet rfl (by simp [haccepted]) (by simp [hgave]) (by simp [htook]) rfl .rfl
  | keyAccept c pc =>
    have hgives := h.gives
    simp only [pc, reduceCtorEq, ↓reduceIte, Nat.add_zero] at hgives
    exact {
      sem := by
        rw [givenSinceTake_append (by simp) (by simp)]
        exact h.sem
      takes := fun a b heq => by
        obtain ⟨b', hb', -⟩ := split_of_not_mem (by simp) heq
        exact h.takes a b' hb'
      presses := fun _ _ _ => .inr (.inr rfl)
      gives := by simp [List.count_append, hgives]
      merged := by simpa [List.count_append] using h.merged }
  | keyGive pc =>
    have hgives := h.gives
    have hmerged := h.merged
    simp only [pc, ↓reduceIte] at hgives
    exact {
      sem := by simp [givenSinceTake_gave]
      takes := fun a b heq => by
        obtain ⟨b', hb', -⟩ := split_of_not_mem (by simp) heq
        exact h.takes a b' hb'
      presses := fun _ _ _ => .inr (.inl rfl)
      gives := by simp [List.count_append, hgives]
      merged := by
        simp only [List.count_append, List.count_singleton]
        simp
        omega }
  | @ntpTake app' pc out sem =>
    have hmerged := h.merged
    simp only [sem, Bool.toNat_true] at hmerged
    exact {
      sem := by simp [not_givenSinceTake_took]
      takes := fun a b heq => by
        -- The last take, or one before it.
        rcases List.eq_nil_or_concat b with rfl | ⟨b, x, rfl⟩
        · obtain ⟨rfl, -⟩ := List.append_inj' heq rfl
          exact h.sem.mp sem
        · rw [List.concat_eq_append, ← List.cons_append, ← List.append_assoc] at heq
          obtain ⟨hs, -⟩ := List.append_inj' heq rfl
          exact h.takes a b hs
      presses := fun a b heq => by
        obtain ⟨b', -, rfl⟩ := split_of_not_mem (by simp) heq
        exact .inl (by simp)
      gives := by simpa [List.count_append] using h.gives
      merged := by simpa [List.count_append] using hmerged }

end

theorem requested_init (hw : HwInit) (msg : TimeMsg) : Requested (State.init hw msg) where
  sem := by simp [State.init, GivenSinceTake]
  takes a b h := by simp [State.init] at h
  presses a b h := by simp [State.init] at h
  gives := rfl
  merged := by simp [State.init]

/-! ### Rounds -/

/-- A request round: whether each of its queries succeeded, how often it called `xQueueSend`, whether it
    reported failure, and whether it is over. -/
structure Round where
  results : List Bool
  sends : Nat
  failed : Bool
  done : Bool
  deriving DecidableEq, Repr

def Round.note (r : Round) : Event → Round
  | .queried _ result => { r with results := r.results ++ [result.isSome] }
  | .sent _ | .sendTimedOut _ => { r with sends := r.sends + 1 }
  | .allRetriesFailed => { r with failed := true }
  | .roundDone => { r with done := true }
  | _ => r

/-- A take begins a round; any other event belongs to the last one. -/
def noteRound (rs : List Round) (e : Event) : List Round :=
  if e = .took then rs ++ [⟨[], 0, false, false⟩]
  else
    match rs.getLast? with
    | none => rs
    | some r => rs.dropLast ++ [r.note e]

def rounds (h : List Event) : List Round := h.foldl noteRound []

/-- One to three queries up to the first success; one send if one succeeded, else none; failure is
    reported when all three failed. -/
structure Round.Proper (r : Round) : Prop where
  calls : 1 ≤ r.results.length ∧ r.results.length ≤ 3
  stops : true ∉ r.results.dropLast
  sends : r.sends = if true ∈ r.results then 1 else 0
  failed : r.failed = true ↔ r.results = [false, false, false]

/-- The round that `ntp_task` is in, as its position tells it. -/
def NtpPc.round : NtpPc → Option Round
  | .query retries => some ⟨List.replicate (3 - retries) false, 0, false, false⟩
  | .retryDelay retries => some ⟨List.replicate (3 - retries) false, 0, false, false⟩
  | .send retries => some ⟨List.replicate (3 - retries) false ++ [true], 0, false, false⟩
  | _ => none

/-- The values of `retries` at each position. -/
def NtpPc.RetriesOk : NtpPc → Prop
  | .query retries | .send retries => 1 ≤ retries ∧ retries ≤ 3
  | .retryDelay retries => 1 ≤ retries ∧ retries ≤ 2
  | _ => True

/-- Where the rounds stand: those that are over, then the one that `ntp_task` is in. -/
structure RoundsKept (s : State) : Prop where
  split : ∃ rs, rounds s.history = rs ++ s.ntp.pc.round.toList ∧ ∀ r ∈ rs, r.done = true ∧ r.Proper
  retries : s.ntp.pc.RetriesOk
  begun : (rounds s.history).length = s.history.count .took

theorem rounds_append (h es : List Event) : rounds (h ++ es) = es.foldl noteRound (rounds h) := List.foldl_append

@[simp] theorem noteRound_took (rs : List Round) : noteRound rs .took = rs ++ [⟨[], 0, false, false⟩] := by
  simp [noteRound]

theorem noteRound_snoc (rs : List Round) (r : Round) {e : Event} (he : e ≠ .took) :
    noteRound (rs ++ [r]) e = rs ++ [r.note e] := by simp [noteRound, he]

theorem noteRound_nil {e : Event} (he : e ≠ .took) : noteRound [] e = [] := by simp [noteRound, he]

theorem length_noteRound (rs : List Round) {e : Event} (he : e ≠ .took) : (noteRound rs e).length = rs.length := by
  rcases List.eq_nil_or_concat rs with rfl | ⟨rs, r, rfl⟩
  · rw [noteRound_nil he]
  · rw [List.concat_eq_append, noteRound_snoc _ _ he]
    simp

theorem noteRound_other {e : Event} (he : e ≠ .took) (hnote : ∀ r : Round, r.note e = r) (rs : List Round) :
    noteRound rs e = rs := by
  rcases List.eq_nil_or_concat rs with rfl | ⟨rs, r, rfl⟩
  · exact noteRound_nil he
  · rw [List.concat_eq_append, noteRound_snoc _ _ he, hnote]

theorem foldl_note_loopEnd (rs : List Round) (r : Round) (retries : Nat) :
    (loopEnd retries).foldl noteRound (rs ++ [r]) =
      rs ++ [{ r with failed := r.failed || retries == 0, done := true }] := by
  unfold loopEnd
  split
  · rename_i h
    simp [noteRound_snoc, Round.note, h]
  · rename_i h
    simp [noteRound_snoc, Round.note, h]

section
variable {s t : State}

theorem RoundsKept.quiet (h : RoundsKept s) {es : List Event} (hhist : t.history = s.history ++ es)
    (hes : ∀ e ∈ es, e ≠ .took ∧ ∀ r : Round, r.note e = r) (hround : t.ntp.pc.round = s.ntp.pc.round)
    (hretries : t.ntp.pc.RetriesOk) : RoundsKept t := by
  have hsame : ∀ rs, es.foldl noteRound rs = rs := fun rs => by
    clear hhist
    induction es with
    | nil => rfl
    | cons e es ih =>
      obtain ⟨he, hnote⟩ := hes e List.mem_cons_self
      rw [List.foldl_cons, noteRound_other he hnote, ih fun e' he' => hes e' (List.mem_cons_of_mem _ he')]
  have htook : .took ∉ es := fun hm => (hes _ hm).1 rfl
  refine ⟨?_, hretries, ?_⟩
  · rw [hhist, rounds_append, hsame, hround]
    exact h.split
  · rw [hhist, rounds_append, hsame, List.count_append, List.count_eq_zero_of_not_mem htook]
    exact h.begun

/-- A step of a round: an event `e` about it and, at its end, what the end of the retry loop adds. -/
theorem RoundsKept.noted (h : RoundsKept s) {e : Event} {es : List Event} {r : Round} {rs' : List Round}
    (hhist : t.history = s.history ++ e :: es) (he : e ≠ .took) (htook : .took ∉ es)
    (hround : s.ntp.pc.round = some r) (hfold : ∀ rs, es.foldl noteRound (rs ++ [r.note e]) = rs ++ rs')
    (hrs' : ∃ ended, rs' = ended ++ t.ntp.pc.round.toList ∧ ∀ r ∈ ended, r.done = true ∧ r.Proper)
    (hretries : t.ntp.pc.RetriesOk) : RoundsKept t := by
  obtain ⟨rs, hrs, hover⟩ := h.split
  obtain ⟨ended, rfl, hended⟩ := hrs'
  have hlen : ∀ (es : List Event) (rs : List Round), .took ∉ es → (es.foldl noteRound rs).length = rs.length := by
    intro es
    induction es with
    | nil => intro rs _; rfl
    | cons e es ih =>
      intro rs hm
      simp only [List.mem_cons, not_or] at hm
      rw [List.foldl_cons, ih _ hm.2, length_noteRound _ (Ne.symm hm.1)]
  have hall : .took ∉ e :: es := by simp [Ne.symm he, htook]
  rw [hround] at hrs
  refine ⟨⟨rs ++ ended, ?_, fun r hr => ?_⟩, hretries, ?_⟩
  · rw [hhist, rounds_append, hrs, List.foldl_cons]
    simp only [Option.toList_some]
    rw [noteRound_snoc _ _ he, hfold, List.append_assoc]
  · rcases List.mem_append.mp hr with hr | hr
    · exact hover r hr
    · exact hended r hr
  · rw [hhist, rounds_append, hlen _ _ hall, h.begun, List.count_append, List.count_eq_zero_of_not_mem hall,
      Nat.add_zero]

theorem proper_failed : Round.Proper ⟨[false, false, false], 0, true, true⟩ := ⟨by decide, by decide, by decide, by decide⟩

theorem proper_sent {retries : Nat} (h : 1 ≤ retries ∧ retries ≤ 3) :
    Round.Proper ⟨List.replicate (3 - retries) false ++ [true], 1, false || retries == 0, true⟩ := by
  obtain ⟨hlo, hhi⟩ := h
  interval_cases retries <;> exact ⟨by decide, by decide, by decide, by decide⟩

theorem RoundsKept.sent (h : RoundsKept s) {retries : Nat} {e : Event} (pc : s.ntp.pc = .send retries)
    (hhist : t.history = s.history ++ e :: loopEnd retries) (he : e ≠ .took)
    (hnote : ∀ r : Round, r.note e = { r with sends := r.sends + 1 }) (hpc : t.ntp.pc = .poll) : RoundsKept t := by
  have hretries := h.retries
  rw [pc] at hretries
  have hended : ∃ ended : List Round,
      [⟨List.replicate (3 - retries) false ++ [true], 1, false || retries == 0, true⟩] =
        ended ++ t.ntp.pc.round.toList ∧ ∀ r ∈ ended, r.done = true ∧ r.Proper := by
    rw [hpc]
    refine ⟨_, (List.append_nil _).symm, fun r hr => ?_⟩
    rw [List.mem_singleton.mp hr]
    exact ⟨rfl, proper_sent hretries⟩
  exact h.noted hhist he (loopEnd_quiet retries).2.2 (by rw [pc]; rfl)
    (fun rs => by rw [hnote, foldl_note_loopEnd]) hended (by rw [hpc]; trivial)

theorem RoundsKept.step {a : Action} (h : RoundsKept s) (hstep : Step s a t) : RoundsKept t := by
  have one : ∀ e : Event, e ≠ .took → (∀ r : Round, r.note e = r) → ∀ e' ∈ [e], e' ≠ .took ∧ ∀ r : Round, r.note e' = r :=
    fun e he hnote => by simpa using ⟨he, hnote⟩
  cases hstep with
  | keyPutc | ntpPutc | speechPutc | keyIgnore | keyWake | close =>
    exact h.quiet (List.append_nil _).symm (by simp) rfl h.retries
  | keyAccept | keyGive | receive | done => exact h.quiet rfl (one _ (by simp) fun _ => rfl) rfl h.retries
  | @ntpMove a pc' app' move =>
    have hretries := h.retries
    refine h.quiet (List.append_nil _).symm (by simp) ?_ ?_
    · generalize s.ntp.pc = pc at move
      cases move <;> rfl
    · generalize s.ntp.pc = pc at move hretries
      cases move with
      | retry retries => exact ⟨hretries.1, Nat.le_succ_of_le hretries.2⟩
      | _ => trivial
  | @ntpTake app' pc =>
    obtain ⟨rs, hrs, hover⟩ := h.split
    rw [pc] at hrs
    refine ⟨⟨rs, ?_, hover⟩, ⟨by decide, by decide⟩, ?_⟩
    · rw [rounds_append, hrs]
      simp [NtpPc.round]
    · rw [rounds_append, List.count_append, ← h.begun]
      simp
  | @answered retries env p app' pc =>
    have hretries := h.retries
    rw [pc] at hretries
    exact h.noted rfl (by simp) (by simp) (by rw [pc]; rfl) (fun _ => rfl) ⟨[], rfl, by simp⟩ hretries
  | @retry retries env app' pc =>
    have hretries := h.retries
    rw [pc] at hretries
    have hle : retries ≤ 1 := by have := hretries.2; omega
    refine h.noted rfl (by simp) (by simp) (by rw [pc]; rfl) (fun _ => rfl) ⟨[], ?_, by simp⟩ ⟨by omega, by omega⟩
    interval_cases retries <;> rfl
  | @giveUp retries env app' pc last =>
    have hretries := h.retries
    rw [pc] at hretries
    obtain rfl : retries = 1 := Nat.le_antisymm last hretries.1
    refine h.noted rfl (by simp) (loopEnd_quiet 0).2.2 (by rw [pc]; rfl)
      (fun rs => foldl_note_loopEnd rs _ 0) ⟨_, (List.append_nil _).symm, fun r hr => ?_⟩ trivial
    rw [List.mem_singleton.mp hr]
    exact ⟨rfl, proper_failed⟩
  | ntpSend pc => exact h.sent pc rfl (by simp) (fun _ => rfl) rfl
  | ntpSendTimeout pc => exact h.sent pc rfl (by simp) (fun _ => rfl) rfl

end

theorem roundsKept_init (hw : HwInit) (msg : TimeMsg) : RoundsKept (State.init hw msg) where
  split := ⟨[], rfl, by simp⟩
  retries := trivial
  begun := rfl

/-- **No request is lost, and none is made up.** The semaphore is full exactly when it was given since
    the last take, and each take follows a give after the take before; an accepted press is followed by
    a round, or still pending; there are at most as many rounds as accepted presses; all rounds but the
    last are over, and each that is over is proper. -/
theorem requests_served {s : State} (h : Reachable s) :
    (s.sem = true ↔ GivenSinceTake s.history) ∧
    (∀ a b, s.history = a ++ .took :: b → GivenSinceTake a) ∧
    (∀ a b, s.history = a ++ .accepted :: b → .took ∈ b ∨ s.sem = true ∨ s.key.pc = .give) ∧
    (rounds s.history).length = s.history.count .took ∧
    (rounds s.history).length ≤ s.history.count .accepted ∧
    (∀ r ∈ (rounds s.history).dropLast, r.done = true) ∧
    ∀ r ∈ rounds s.history, r.done = true → r.Proper := by
  have req : Requested s := h.invariant requested_init fun _ _ _ hs hstep => hs.step hstep
  have kept : RoundsKept s := h.invariant roundsKept_init fun _ _ _ hs hstep => hs.step hstep
  obtain ⟨rs, hrs, hover⟩ := kept.split
  have hle : (rounds s.history).length ≤ s.history.count .accepted := by
    have h1 := kept.begun
    have h2 := req.merged
    have h3 := req.gives
    omega
  refine ⟨req.sem, req.takes, req.presses, kept.begun, hle, fun r hr => ?_, fun r hr hdone => ?_⟩
  · -- Only the round that `ntp_task` is in may be open, and it is the last.
    cases hround : s.ntp.pc.round with
    | none =>
      rw [hrs, hround, Option.toList_none, List.append_nil] at hr
      exact (hover r (List.mem_of_mem_dropLast hr)).1
    | some cur =>
      rw [hrs, hround, Option.toList_some, List.dropLast_concat] at hr
      exact (hover r hr).1
  · rw [hrs] at hr
    rcases List.mem_append.mp hr with hr | hr
    · exact (hover r hr).2
    · have hopen : r.done = false := by
        unfold NtpPc.round at hr
        split at hr <;> simp at hr <;> rw [hr]
      rw [hopen] at hdone
      cases hdone

/-- Four presses and three rounds, since the third and the fourth press make one; the second round has a failed
    attempt, and the message of the third is abandoned. -/
theorem requests_served_three : ∃ s, Reachable s ∧ s.history.count .accepted = 4 ∧
    rounds s.history = [⟨[true], 1, false, true⟩, ⟨[false, true], 1, false, true⟩, ⟨[true], 1, false, true⟩] ∧
    (∀ r ∈ rounds s.history, r.Proper) ∧ ¬GivenSinceTake s.history := by
  obtain ⟨s, hreach, hhist, hsem⟩ := reachable_threeRounds
  have hserved := requests_served hreach
  have hrounds : rounds s.history =
      [⟨[true], 1, false, true⟩, ⟨[false, true], 1, false, true⟩, ⟨[true], 1, false, true⟩] := by
    rw [hhist]
    rfl
  refine ⟨s, hreach, ?_, hrounds, fun r hr => hserved.2.2.2.2.2.2 r hr ?_, ?_⟩
  · rw [hhist]
    decide +kernel
  · rw [hrounds] at hr
    fin_cases hr <;> rfl
  · rw [← hserved.1, hsem]
    simp

end SpeakingClock
