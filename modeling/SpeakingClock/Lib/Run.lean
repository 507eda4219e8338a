import Mathlib.Tactic

/-! Runs of a partial step function. `Reaches step ok s₀` are the states reached from `s₀` by steps that
    `ok` allows, with the invariant rule and the composition of runs; `exec` follows one list of actions. -/

namespace Run
variable {S A : Type} {step : S → A → Option S} {ok : S → A → Prop} {s₀ s t : S}

/-- The states reached from `s₀` by steps that `ok` allows. -/
inductive Reaches (step : S → A → Option S) (ok : S → A → Prop) (s₀ : S) : S → Prop where
  | refl : Reaches step ok s₀ s₀
  | tail {s t : S} {a : A} : Reaches step ok s₀ s → ok s a → step s a = some t → Reaches step ok s₀ t

namespace Reaches

/-- What holds at the start and is kept by each step of the run holds in every state reached. -/
theorem invariant {P : S → Prop} (h : Reaches step ok s₀ s) (start : P s₀)
    (kept : ∀ s a t, Reaches step ok s₀ s → P s → ok s a → step s a = some t → P t) : P s := by
  induction h with
  | refl => exact start
  | tail hr hok hs ih => exact kept _ _ _ hr ih hok hs

theorem trans (h : Reaches step ok s₀ s) (h' : Reaches step ok s t) : Reaches step ok s₀ t :=
  h'.invariant h fun _ _ _ _ ih hok hs => ih.tail hok hs

theorem mono {ok' : S → A → Prop} (hle : ∀ s a, ok s a → ok' s a) (h : Reaches step ok s₀ s) :
    Reaches step ok' s₀ s := h.invariant .refl fun _ _ _ _ ih hok hs => ih.tail (hle _ _ hok) hs

end Reaches

/-- The state after the actions: none when one of them is not possible. -/
def exec (step : S → A → Option S) (s : S) (as : List A) : Option S := as.foldlM step s

theorem exec_snoc (as : List A) (a : A) : exec step s (as ++ [a]) = (exec step s as).bind (step · a) := by
  simp [exec, List.foldlM_append]

theorem Reaches.of_exec {as : List A} (h : exec step s₀ as = some s) : Reaches step (fun _ _ => True) s₀ s := by
  induction as using List.reverseRecOn generalizing s with
  | nil =>
    cases h
    exact .refl
  | append_singleton as a ih =>
    rw [exec_snoc] at h
    obtain ⟨t, ht, hs⟩ := Option.bind_eq_some_iff.mp h
    exact (ih ht).tail trivial hs

theorem Reaches.of_exec_all {P : A → Prop} {as : List A} (hok : ∀ a ∈ as, P a) (h : exec step s₀ as = some s) :
    Reaches step (fun _ a => P a) s₀ s := by
  induction as using List.reverseRecOn generalizing s with
  | nil =>
    cases h
    exact .refl
  | append_singleton as a ih =>
    rw [exec_snoc] at h
    obtain ⟨t, ht, hs⟩ := Option.bind_eq_some_iff.mp h
    exact (ih (fun a' ha' => hok a' (List.mem_append_left _ ha')) ht).tail (hok a (by simp)) hs

/-- Actions each of which is allowed in its state. -/
theorem Reaches.of_exec_ok [∀ s a, Decidable (ok s a)] {as : List A}
    (h : exec (fun s a => if ok s a then step s a else none) s₀ as = some s) : Reaches step ok s₀ s := by
  refine (Reaches.of_exec h).invariant .refl fun s a t _ hr _ hs => ?_
  split at hs
  · rename_i hok
    exact hr.tail hok hs
  · cases hs

/-- What is reached is reached by a list of actions. -/
theorem Reaches.exists_exec (h : Reaches step ok s₀ s) : ∃ as, exec step s₀ as = some s := by
  induction h with
  | refl => exact ⟨[], rfl⟩
  | tail _ _ hs ih =>
    obtain ⟨as, has⟩ := ih
    exact ⟨as ++ [_], by rw [exec_snoc, has, Option.bind_some, hs]⟩

end Run
