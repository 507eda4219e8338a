import SpeakingClock.Keyboard
import SpeakingClock.Lib.Run

/-! The keys that reach QEMU. What was typed is what QEMU got, then what the two buffers hold (`Keyboard.Inv`);
    `select` sees only the second of them, so when it reports nothing ready the first may still hold
    keys, and then they stay there until more is typed. -/

namespace SpeakingClock
open Run

/-- The keys before the first exit key, if there is one: Ctrl+C, or Ctrl+A and then `x` or `X`. The byte
    after a Ctrl+A belongs to it. -/
def beforeExit : Bytes → Option Bytes
  | [] => none
  | ch :: keys =>
    if ch = ctrlA then
      match keys with
      | [] => none
      | ch2 :: keys => if isX ch2 then some [] else (beforeExit keys).map ([ch, ch2] ++ ·)
    else if ch = ctrlC then some []
    else (beforeExit keys).map (ch :: ·)

theorem beforeExit_key {ch : UInt8} (hA : ch ≠ ctrlA) (keys : Bytes) :
    beforeExit (ch :: keys) = if ch = ctrlC then some [] else (beforeExit keys).map (ch :: ·) := by
  rw [beforeExit.eq_def]
  exact if_neg hA

theorem beforeExit_escaped (ch2 : UInt8) (keys : Bytes) :
    beforeExit (ctrlA :: ch2 :: keys) = if isX ch2 then some [] else (beforeExit keys).map ([ctrlA, ch2] ++ ·) := by
  rw [beforeExit.eq_def]
  exact if_pos rfl

/-- Keys to be forwarded: none of them is an exit key, and the last is complete. -/
inductive Forwardable : Bytes → Prop where
  | nil : Forwardable []
  | key {keys : Bytes} {ch : UInt8} : Forwardable keys → ch ≠ ctrlA → ch ≠ ctrlC → Forwardable (keys ++ [ch])
  | escaped {keys : Bytes} {ch2 : UInt8} : Forwardable keys → isX ch2 = false → Forwardable (keys ++ [ctrlA, ch2])

theorem Forwardable.beforeExit_append {keys : Bytes} (h : Forwardable keys) (rest : Bytes) :
    beforeExit (keys ++ rest) = (beforeExit rest).map (keys ++ ·) := by
  induction h generalizing rest with
  | nil => simp
  | key _ hA hC ih =>
    rw [List.append_assoc, ih, List.singleton_append, beforeExit_key hA, if_neg hC]
    simp [Function.comp_def]
  | escaped _ hx ih =>
    rw [List.append_assoc, ih, List.cons_append, List.singleton_append, beforeExit_escaped]
    simp [hx, Function.comp_def]

theorem Forwardable.beforeExit_eq {keys : Bytes} (h : Forwardable keys) : beforeExit keys = none := by
  have hend := h.beforeExit_append []
  rwa [List.append_nil] at hend

/-- What follows an exit key does not matter. -/
theorem beforeExit_append {keys pre : Bytes} (h : beforeExit keys = some pre) (more : Bytes) :
    beforeExit (keys ++ more) = some pre := by
  fun_induction beforeExit keys generalizing pre with
  | case1 => cases h
  | case2 => cases h
  | case3 ch2 keys hx =>
    rw [List.cons_append, List.cons_append, beforeExit_escaped, if_pos hx]
    exact h
  | case4 ch2 keys hx ih =>
    obtain ⟨rest, hrest, rfl⟩ := Option.map_eq_some_iff.mp h
    rw [List.cons_append, List.cons_append, beforeExit_escaped, if_neg hx, ih hrest, Option.map_some]
  | case5 keys hA =>
    rw [List.cons_append, beforeExit_key hA, if_pos rfl]
    exact h
  | case6 ch keys hA hC ih =>
    obtain ⟨rest, hrest, rfl⟩ := Option.map_eq_some_iff.mp h
    rw [List.cons_append, beforeExit_key hA, if_neg hC, ih hrest, Option.map_some]

/-! ### One step -/

section
variable {s t : Keyboard} {a : KeyAction}

/-- What each action does. -/
inductive KeyStep (s : Keyboard) : KeyAction → Keyboard → Prop where
  | arrive (keys : Bytes) : KeyStep s (.arrive keys)
      { s with
        arrived := s.arrived ++ keys
        queue := s.queue ++ keys
        pc := if s.pc = .idle then .select else s.pc }
  | stop : KeyStep s .stop { s with pc := .stopped }
  | idle : s.pc = .select → s.queue = [] → KeyStep s .loop { s with pc := .idle }
  | ready : s.pc = .select → KeyStep s .loop { s with pc := .read }
  | again : s.pc = .idle → KeyStep s .loop { s with pc := .select }
  | key {r : UInt8 × Keyboard} : s.pc = .read → s.read1 = some r → KeyStep s .loop (r.2.key r.1)
  | escaped {r : UInt8 × Keyboard} : s.pc = .escape → s.read1 = some r → KeyStep s .loop (r.2.escaped r.1)

theorem keyStep (h : s.step a = some t) : KeyStep s a t := by
  cases a with
  | arrive keys =>
    cases h
    exact .arrive keys
  | stop =>
    simp only [Keyboard.step] at h
    split at h
    · cases h
    · cases h
      exact .stop
  | loop =>
    simp only [Keyboard.step] at h
    cases hpc : s.pc with
    | select =>
      rw [hpc] at h
      cases h
      by_cases hqueue : s.queue = []
      · rw [if_pos hqueue]
        exact .idle hpc hqueue
      · rw [if_neg hqueue]
        exact .ready hpc
    | idle =>
      rw [hpc] at h
      cases h
      exact .again hpc
    | read =>
      rw [hpc] at h
      obtain ⟨r, hr, rfl⟩ := Option.map_eq_some_iff.mp h
      exact .key hpc hr
    | escape =>
      rw [hpc] at h
      obtain ⟨r, hr, rfl⟩ := Option.map_eq_some_iff.mp h
      exact .escaped hpc hr
    | exited => rw [hpc] at h; cases h
    | stopped => rw [hpc] at h; cases h

theorem read1_eq {r : UInt8 × Keyboard} (h : s.read1 = some r) :
    s.buffer ++ s.queue = r.1 :: (r.2.buffer ++ r.2.queue) ∧ r.2.arrived = s.arrived ∧ r.2.written = s.written := by
  unfold Keyboard.read1 at h
  split at h
  · cases h
    simp [*]
  · cases h
    simp [*]
  · cases h

/-- What was typed, in terms of what was written and what is still to be read. -/
structure Keyboard.Inv (s : Keyboard) : Prop where
  between : s.pc = .select ∨ s.pc = .idle ∨ s.pc = .read →
    Forwardable s.written ∧ s.arrived = s.written ++ (s.buffer ++ s.queue)
  escape : s.pc = .escape → Forwardable s.written ∧ s.arrived = s.written ++ ctrlA :: (s.buffer ++ s.queue)
  idle : s.pc = .idle → s.queue = []
  exited : s.pc = .exited → beforeExit s.arrived = some s.written

theorem inv_key {ch : UInt8} (hf : Forwardable t.written) (harrived : t.arrived = t.written ++ ch :: (t.buffer ++ t.queue)) :
    (t.key ch).Inv := by
  unfold Keyboard.key
  split
  · rename_i hA
    exact ⟨by simp, fun _ => ⟨hf, hA ▸ harrived⟩, by simp, by simp⟩
  · rename_i hA
    split
    · rename_i hC
      refine ⟨by simp, by simp, by simp, fun _ => ?_⟩
      rw [harrived, hf.beforeExit_append, beforeExit_key hA, if_pos hC, Option.map_some, List.append_nil]
    · rename_i hC
      exact ⟨fun _ => ⟨hf.key hA hC, by simp [harrived]⟩, by simp, by simp, by simp⟩

theorem inv_escaped {ch2 : UInt8} (hf : Forwardable t.written)
    (harrived : t.arrived = t.written ++ ctrlA :: ch2 :: (t.buffer ++ t.queue)) : (t.escaped ch2).Inv := by
  unfold Keyboard.escaped
  split
  · rename_i hx
    refine ⟨by simp, by simp, by simp, fun _ => ?_⟩
    rw [harrived, hf.beforeExit_append, beforeExit_escaped, if_pos hx, Option.map_some, List.append_nil]
  · rename_i hx
    exact ⟨fun _ => ⟨hf.escaped (by simpa using hx), by simp [harrived]⟩, by simp, by simp, by simp⟩

theorem inv_arrive (hi : s.Inv) (keys : Bytes) :
    Keyboard.Inv { s with
      arrived := s.arrived ++ keys
      queue := s.queue ++ keys
      pc := if s.pc = .idle then .select else s.pc } := by
  refine ⟨fun hp => ?_, fun hp => ?_, fun hp => ?_, fun hp => ?_⟩
  · obtain ⟨hf, harrived⟩ := hi.between (by grind)
    exact ⟨hf, by simp [harrived]⟩
  · obtain ⟨hf, harrived⟩ := hi.escape (by grind)
    exact ⟨hf, by simp [harrived]⟩
  · grind
  · exact beforeExit_append (hi.exited (by grind)) keys

theorem inv_step (hi : s.Inv) (h : KeyStep s a t) : t.Inv := by
  cases h with
  | arrive keys => exact inv_arrive hi keys
  | stop => exact ⟨by simp, by simp, by simp, by simp⟩
  | idle hpc hqueue => exact ⟨fun _ => hi.between (.inl hpc), by simp, fun _ => hqueue, by simp⟩
  | ready hpc => exact ⟨fun _ => hi.between (.inl hpc), by simp, by simp, by simp⟩
  | again hpc => exact ⟨fun _ => hi.between (.inr (.inl hpc)), by simp, by simp, by simp⟩
  | key hpc hr =>
    obtain ⟨hbytes, harr, hwr⟩ := read1_eq hr
    obtain ⟨hf, harrived⟩ := hi.between (.inr (.inr hpc))
    rw [hbytes, ← hwr, ← harr] at harrived
    exact inv_key (hwr ▸ hf) harrived
  | escaped hpc hr =>
    obtain ⟨hbytes, harr, hwr⟩ := read1_eq hr
    obtain ⟨hf, harrived⟩ := hi.escape hpc
    rw [hbytes, ← hwr, ← harr] at harrived
    exact inv_escaped (hwr ▸ hf) harrived

/-- Only `select` with an empty queue reports nothing ready. -/
theorem step_idle (h : KeyStep s a t) (hidle : t.pc = .idle) :
    a = .loop ∧ s.pc = .select ∧ s.queue = [] ∧ t = { s with pc := .idle } := by
  cases h with
  | arrive keys => grind
  | stop => cases hidle
  | idle hpc hqueue => exact ⟨rfl, hpc, hqueue, rfl⟩
  | ready => cases hidle
  | again => cases hidle
  | key =>
    unfold Keyboard.key at hidle
    grind
  | escaped =>
    unfold Keyboard.escaped at hidle
    grind

end

/-! ### Runs -/

theorem inv_exec {as : List KeyAction} {s : Keyboard} (h : exec Keyboard.step .start as = some s) : s.Inv :=
  (Reaches.of_exec h).invariant ⟨fun _ => ⟨.nil, rfl⟩, by simp [Keyboard.start], by simp [Keyboard.start],
    by simp [Keyboard.start]⟩ fun _ _ _ _ hi _ hs => inv_step hi (keyStep hs)

/-- What should hold of the keys. When `select` has just reported nothing ready, QEMU has got all that was
    typed, without an exit key in it; when the loop has left at an exit key, what was typed before. -/
structure Keyboard.Forwarded (s : Keyboard) : Prop where
  idle : s.pc = .idle → beforeExit s.arrived = none ∧ s.written = s.arrived
  exited : s.pc = .exited → beforeExit s.arrived = some s.written

/-- `select` is called with keys in the buffer of `sys.stdin.buffer` only when the terminal holds more. -/
def Replenished (s : Keyboard) (a : KeyAction) : Prop := a = .loop → s.pc = .select → s.buffer ≠ [] → s.queue ≠ []

theorem forwarded_iff {s : Keyboard} (hi : s.Inv) : s.Forwarded ↔ (s.pc = .idle → s.buffer = []) := by
  constructor
  · intro h hidle
    have harrived := (hi.between (.inr (.inl hidle))).2
    rw [hi.idle hidle, List.append_nil, ← (h.idle hidle).2] at harrived
    exact List.self_eq_append_right.mp harrived
  · intro h
    refine ⟨fun hidle => ?_, hi.exited⟩
    obtain ⟨hf, harrived⟩ := hi.between (.inr (.inl hidle))
    rw [h hidle, hi.idle hidle, List.append_nil, List.append_nil] at harrived
    exact ⟨by rw [harrived, hf.beforeExit_eq], harrived.symm⟩

/-- **Keys are forwarded.** Along any run of the loop, however keys arrive: every state is as it should be
    exactly when every call of `select` meets the condition. -/
theorem keys_forwarded_iff (as : List KeyAction) :
    (∀ before after, as = before ++ after → ∀ s, exec Keyboard.step .start before = some s → s.Forwarded) ↔
      ∀ before a after, as = before ++ a :: after → ∀ s, exec Keyboard.step .start before = some s → Replenished s a := by
  constructor
  · -- A call that breaks the condition reports nothing ready while keys are in the buffer.
    rintro h before a after rfl s hs rfl hselect hbuffer hqueue
    have hidle : s.step .loop = some { s with pc := .idle } := by simp [Keyboard.step, hselect, hqueue]
    have hnext : exec Keyboard.step .start (before ++ [.loop]) = some { s with pc := .idle } := by
      rw [exec_snoc, hs]
      exact hidle
    have hforwarded := h (before ++ [.loop]) after (by simp) _ hnext
    exact hbuffer ((forwarded_iff (inv_exec hnext)).mp hforwarded rfl)
  · rintro h before after rfl s hs
    refine (forwarded_iff (inv_exec hs)).mpr fun hidle => ?_
    rcases List.eq_nil_or_concat before with rfl | ⟨as, a, hbefore⟩
    · cases hs
      cases hidle
    · -- The last step was a call of `select`, and the condition is about it.
      rw [List.concat_eq_append] at hbefore
      subst hbefore
      rw [exec_snoc] at hs
      obtain ⟨s₀, hs₀, hstep⟩ := Option.bind_eq_some_iff.mp hs
      obtain ⟨hloop, hselect, hqueue, rfl⟩ := step_idle (keyStep hstep) hidle
      by_contra hbuffer
      exact h as a after (by simp) s₀ hs₀ hloop hselect hbuffer hqueue

/-- Two keys in one group: the second stays in the buffer of `sys.stdin.buffer`. -/
theorem second_key_stranded :
    ∃ s, exec Keyboard.step .start [.arrive [0x61, 0x62], .loop, .loop, .loop] = some s ∧ s.pc = .idle ∧
      s.arrived = [0x61, 0x62] ∧ beforeExit s.arrived = none ∧ s.written = [0x61] :=
  ⟨⟨.idle, [0x61, 0x62], [], [0x62], [0x61]⟩, by decide, rfl, rfl, by decide, rfl⟩

-- One at a time, both are forwarded.
example : exec Keyboard.step .start [.arrive [0x61], .loop, .loop, .loop, .arrive [0x62], .loop, .loop, .loop] =
    some ⟨.idle, [0x61, 0x62], [], [], [0x61, 0x62]⟩ := by
  decide

end SpeakingClock
