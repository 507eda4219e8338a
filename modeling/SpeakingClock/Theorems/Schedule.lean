import SpeakingClock.Theorems.Steps

/-! Writing a run down. A schedule is a list of stretches, each one action or several bytes of one task
    in a row; `runSchedule` plays it under a rule for the steps, and what it reaches is reached. -/

namespace SpeakingClock
open Run

inductive Stretch where
  | act (a : Action)
  | put (w : Writer) (n : Nat)  -- the next `n` bytes of a task, or all it has if these are fewer
  deriving DecidableEq, Repr

def State.put (s : State) (w : Writer) (n : Nat) : State :=
  let uart := s.uart ++ ((s.out w).take n).map (w, ·)
  match w with
  | .main => s
  | .key => { s with key := { s.key with out := s.key.out.drop n }, uart := uart }
  | .ntp => { s with ntp := { s.ntp with app := { s.ntp.app with uart := s.ntp.app.uart.drop n } }, uart := uart }
  | .speech => { s with speech := { s.speech with out := s.speech.out.drop n }, uart := uart }

def Writer.putc? : Writer → Option Action
  | .main => none
  | .key => some .keyPutc
  | .ntp => some .ntpPutc
  | .speech => some .speechPutc

theorem putc?_inj {w w' : Writer} {a : Action} (h : w.putc? = some a) (h' : w'.putc? = some a) : w = w' := by
  cases w <;> cases h <;> cases w' <;> first | rfl | cases h'

section
variable (ok : State → Action → Prop) [∀ s a, Decidable (ok s a)]

def runStretch (s : State) : Stretch → Option State
  | .act a => if ok s a then step s a else none
  | .put w n =>
    match w.putc? with
    | none => none
    | some a => if ok s a then some (s.put w n) else none

def runSchedule (s : State) : List Stretch → Option State
  | [] => some s
  | x :: xs => (runStretch ok s x).bind (runSchedule · xs)

/-- A task that may put a byte may go on putting bytes. -/
def Steady : Prop := ∀ s w a n, w.putc? = some a → ok s a → ok (s.put w n) a

end

section
variable {s t : State} {w : Writer} {a : Action} {ok : State → Action → Prop}

theorem put_zero (s : State) (w : Writer) : s.put w 0 = s := by cases w <;> simp [State.put]

theorem put_succ_of_le {n : Nat} (hn : (s.out w).length ≤ n) : s.put w (n + 1) = s.put w n := by
  have h1 := List.drop_eq_nil_of_le hn
  have h2 := List.take_of_length_le hn
  have h3 := List.drop_eq_nil_of_le (hn.trans n.le_succ)
  have h4 := List.take_of_length_le (hn.trans n.le_succ)
  cases w <;> simp only [State.out] at h1 h2 h3 h4 <;> simp [State.put, State.out, *]

theorem step_put (ha : w.putc? = some a) {n : Nat} (hn : n < (s.out w).length) :
    step (s.put w n) a = some (s.put w (n + 1)) := by
  obtain ⟨b, hdrop, htake⟩ : ∃ b, (s.out w).drop n = b :: (s.out w).drop (n + 1) ∧
      (s.out w).take (n + 1) = (s.out w).take n ++ [b] :=
    ⟨_, List.drop_eq_getElem_cons hn, List.take_succ_eq_append_getElem hn⟩
  cases w with
  | main => cases ha
  | key | ntp | speech =>
    cases ha
    simp only [State.out] at hdrop htake
    simp [step, State.putc, State.put, State.out, hdrop, htake]

theorem reaches_put (steady : Steady ok) (ha : w.putc? = some a) (h : ok s a) (n : Nat) :
    Reaches step ok s (s.put w n) := by
  induction n with
  | zero =>
    rw [put_zero]
    exact .refl
  | succ n ih =>
    rcases Nat.lt_or_ge n (s.out w).length with hn | hn
    · exact ih.tail (steady s w a n ha h) (step_put ha hn)
    · rw [put_succ_of_le hn]
      exact ih

theorem reaches_of_runSchedule [∀ s a, Decidable (ok s a)] (steady : Steady ok) {xs : List Stretch}
    (h : runSchedule ok s xs = some t) : Reaches step ok s t := by
  induction xs generalizing s with
  | nil =>
    cases h
    exact .refl
  | cons x xs ih =>
    obtain ⟨u, hu, hrest⟩ := Option.bind_eq_some_iff.mp h
    refine Reaches.trans ?_ (ih hrest)
    cases x with
    | act a =>
      simp only [runStretch] at hu
      split at hu
      · rename_i hok
        exact Reaches.refl.tail hok hu
      · cases hu
    | put w n =>
      simp only [runStretch] at hu
      split at hu
      · cases hu
      · rename_i a ha
        split at hu
        · rename_i hok
          cases hu
          exact reaches_put steady ha hok n
        · cases hu

/-- Bytes of the other tasks do not unblock `ntp_task`. -/
theorem steady_scheduled : Steady Scheduled := by
  intro s w a n ha h
  cases w with
  | main => cases ha
  | ntp =>
    cases ha
    exact .inl rfl
  | key | speech =>
    cases ha
    rcases h with h | h
    · cases h
    · exact .inr h

end

/-! ### A request -/

/-- A reply of a synchronised server of stratum 1, with this transmit timestamp. -/
def serverReply (a b c d : UInt8) : Callback :=
  .recv (some ⟨0, [[0x24, 1] ++ List.replicate 38 0 ++ [a, b, c, d] ++ List.replicate 4 0]⟩) serverAddr ntpPort

/-- The device as QEMU emulates it. -/
def qemuHw : HwInit := ⟨0x01180001, 0x87654321, false⟩

/-- From the start to the first message that `speech_task` receives: DHCP, the banners, a press of
    't', one query that is answered at once. -/
def firstRequest (reply : Callback) : List Stretch :=
  [.put .ntp 1000, .act (.ntpDhcp [.status ⟨10, 0, 2, 15⟩ ⟨255, 255, 255, 0⟩ ⟨10, 0, 2, 2⟩]), .put .ntp 1000,
   .act .ntpWake, .act (.ntpDhcp []), .put .ntp 1000, .put .key 1000, .put .speech 1000,
   .act (.keyPoll (some 116)), .put .key 1000, .act .keyGive, .act .ntpTake, .put .ntp 1000,
   .act (.ntpQuery ⟨true, true, 0, [[reply]]⟩), .put .ntp 1000, .act .ntpSend, .act (.ntpPoll []),
   .act .speechReceive]

theorem reachable_of_runSchedule {hw : HwInit} {msg : TimeMsg} {xs : List Stretch} {s : State}
    (h : runSchedule Scheduled (State.init hw msg) xs = some s) : Reachable s :=
  ⟨hw, msg, (reaches_of_runSchedule steady_scheduled h).mono fun _ _ _ => trivial⟩

/-- The first request, and two more. The first attempt of the second one fails, and while it waits for the
    next attempt 't' is pressed twice, which makes one round. Its message finds `time_queue` full, since
    `speech_task` still has the first announcement to end, and its send times out. -/
def threeRounds : List Stretch :=
  firstRequest (serverReply 0xEC 0 0 0) ++
  [.put .speech 1000, .act .keyWake, .act (.keyPoll (some 116)), .put .key 1000, .act .keyGive, .act .ntpTake,
   .put .ntp 1000, .act (.ntpQuery ⟨false, true, 0, []⟩), .put .ntp 1000, .act .keyWake, .act (.keyPoll (some 116)),
   .put .key 1000, .act .keyGive, .act .keyWake, .act (.keyPoll (some 84)), .put .key 1000, .act .keyGive,
   .act .ntpWake, .act (.ntpQuery ⟨true, true, 0, [[serverReply 0xEC 0 1 0]]⟩), .put .ntp 1000, .act .ntpSend,
   .act (.ntpPoll []), .act .ntpTake, .put .ntp 1000,
   .act (.ntpQuery ⟨true, true, 0, [[serverReply 0xEC 0 2 0]]⟩), .put .ntp 1000, .act .ntpSendTimeout, .put .ntp 1000,
   .act (.ntpPoll []), .act .speechClose, .put .speech 1000, .act .speechDone, .act .speechReceive,
   .put .speech 1000, .act .speechClose, .put .speech 1000, .act .speechDone]

def firstEvents : List Event :=
  [.accepted, .gave, .took, .queried ⟨true, true, 0, [[serverReply 0xEC 0 0 0]]⟩ (some ⟨21, 12, 56⟩),
   .sent ⟨21, 12, 56⟩, .roundDone, .received ⟨21, 12, 56⟩]

def threeEvents : List Event :=
  firstEvents ++
  [.accepted, .gave, .took, .queried ⟨false, true, 0, []⟩ none, .accepted, .gave, .accepted, .gave,
   .queried ⟨true, true, 0, [[serverReply 0xEC 0 1 0]]⟩ (some ⟨21, 17, 12⟩), .sent ⟨21, 17, 12⟩, .roundDone, .took,
   .queried ⟨true, true, 0, [[serverReply 0xEC 0 2 0]]⟩ (some ⟨21, 21, 28⟩), .sendTimedOut ⟨21, 21, 28⟩, .roundDone,
   .spoke ⟨21, 12, 56⟩, .received ⟨21, 17, 12⟩, .spoke ⟨21, 17, 12⟩]

/-- The schedule runs, and what happened in it. -/
theorem runSchedule_threeRounds :
    (runSchedule Scheduled (State.init qemuHw ⟨0, 0, 0⟩) threeRounds).map (fun s => (s.history, s.sem)) =
      some (threeEvents, false) := by decide +kernel

theorem reachable_threeRounds : ∃ s, Reachable s ∧ s.history = threeEvents ∧ s.sem = false := by
  obtain ⟨s, hs, heq⟩ := Option.map_eq_some_iff.mp runSchedule_threeRounds
  obtain ⟨hhist, hsem⟩ := Prod.mk.inj heq
  exact ⟨s, reachable_of_runSchedule hs, hhist, hsem⟩

end SpeakingClock
