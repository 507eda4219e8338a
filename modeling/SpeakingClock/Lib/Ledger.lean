import Mathlib.Tactic

/-! Books of things obtained and given up. Each thing gets a number when it is obtained, and every number
    is used once. A stretch of entries is balanced when it is made of brackets, each opened by a thing
    obtained and closed by the same thing given up in a way that goes with how it was obtained. Then
    what is owned is the same before and after it, and each thing in it is obtained once and given up
    once. -/

namespace Ledger
variable {G H : Type}

/-- An entry: the thing `r` was obtained in the way `g`, or given up in the way `h`. -/
inductive Entry (G H : Type) where
  | gain (g : G) (r : Nat)
  | lose (h : H) (r : Nat)
  deriving DecidableEq, Repr

def Entry.thing : Entry G H → Nat
  | .gain _ r => r
  | .lose _ r => r

def about (r : Nat) (es : List (Entry G H)) : List (Entry G H) := es.filter (·.thing = r)

/-- What is owned after the entries, when `live` was owned before. -/
def owned : List (G × Nat) → List (Entry G H) → List (G × Nat)
  | live, [] => live
  | live, .gain g r :: es => owned ((g, r) :: live) es
  | live, .lose _ r :: es => owned (live.eraseP (·.2 = r)) es

/-- Entries made of brackets that `goes` allows, where the things obtained have the numbers from `n` up
    to `m`. -/
inductive Balanced (goes : G → H → Prop) : Nat → List (Entry G H) → Nat → Prop where
  | nil (n : Nat) : Balanced goes n [] n
  | append {n m k : Nat} {es fs : List (Entry G H)} :
      Balanced goes n es m → Balanced goes m fs k → Balanced goes n (es ++ fs) k
  | bracket {n m : Nat} {es : List (Entry G H)} {g : G} {h : H} :
      goes g h → Balanced goes (n + 1) es m → Balanced goes n (.gain g n :: (es ++ [.lose h n])) m

theorem owned_append (live : List (G × Nat)) (es fs : List (Entry G H)) :
    owned live (es ++ fs) = owned (owned live es) fs := by
  induction es generalizing live with
  | nil => rfl
  | cons e es ih => cases e <;> exact ih _

theorem about_append (r : Nat) (es fs : List (Entry G H)) : about r (es ++ fs) = about r es ++ about r fs :=
  List.filter_append ..

theorem about_gain (r n : Nat) (g : G) (es : List (Entry G H)) :
    about r (.gain g n :: es) = if n = r then .gain g n :: about r es else about r es := by
  by_cases hr : n = r <;> simp [about, Entry.thing, hr]

theorem about_lose (r n : Nat) (h : H) (es : List (Entry G H)) :
    about r (.lose h n :: es) = if n = r then .lose h n :: about r es else about r es := by
  by_cases hr : n = r <;> simp [about, Entry.thing, hr]

namespace Balanced
variable {goes : G → H → Prop} {n m : Nat} {es : List (Entry G H)}

theorem owned_eq (hb : Balanced goes n es m) (live : List (G × Nat)) : owned live es = live := by
  induction hb generalizing live with
  | nil n => rfl
  | append _ _ ih₁ ih₂ => rw [owned_append, ih₁, ih₂]
  | bracket _ _ ih =>
    rw [owned, owned_append, ih]
    simp [owned]

theorem le (hb : Balanced goes n es m) : n ≤ m := by
  induction hb with
  | nil n => exact Nat.le_refl n
  | append _ _ ih₁ ih₂ => exact ih₁.trans ih₂
  | bracket _ _ ih => omega

theorem about_out (hb : Balanced goes n es m) {r : Nat} (hr : r < n ∨ m ≤ r) : about r es = [] := by
  induction hb with
  | nil n => rfl
  | append h₁ h₂ ih₁ ih₂ =>
    have := h₁.le
    have := h₂.le
    rw [about_append, ih₁ (by omega), ih₂ (by omega)]
    rfl
  | @bracket n m es g h _ hin ih =>
    have hlt : n < m := hin.le
    have hne : n ≠ r := by omega
    rw [about_gain, if_neg hne, about_append, ih (by omega), about_lose, if_neg hne]
    rfl

/-- Each thing obtained is given up once, after that, in a way that goes with how it was obtained. -/
theorem about_eq (hb : Balanced goes n es m) (r : Nat) :
    about r es = [] ∨ ∃ g h, goes g h ∧ about r es = [.gain g r, .lose h r] := by
  induction hb with
  | nil n => exact .inl rfl
  | @append n m k es fs h₁ h₂ ih₁ ih₂ =>
    rw [about_append]
    rcases Nat.lt_or_ge r m with hr | hr
    · rwa [h₂.about_out (.inl hr), List.append_nil]
    · rwa [h₁.about_out (.inr hr), List.nil_append]
  | @bracket n m es g h hgoes hin ih =>
    rw [about_gain, about_append, about_lose]
    by_cases hr : n = r
    · subst hr
      have hnone : about n es = [] := hin.about_out (.inl (Nat.lt_succ_self n))
      refine .inr ⟨g, h, hgoes, ?_⟩
      rw [if_pos rfl, if_pos rfl, hnone]
      rfl
    · rw [if_neg hr, if_neg hr]
      simpa [about] using ih

end Balanced

/-! ### Accounts -/

/-- The entries so far, and the number that the next thing obtained gets. -/
structure Account (G H : Type) where
  entries : List (Entry G H)
  next : Nat
  deriving DecidableEq, Repr

namespace Account

def gain (g : G) (a : Account G H) : Account G H := ⟨a.entries ++ [.gain g a.next], a.next + 1⟩

def lose (h : H) (r : Nat) (a : Account G H) : Account G H := { a with entries := a.entries ++ [.lose h r] }

/-- From `a` to `b` the books balance. -/
def Settles (goes : G → H → Prop) (a b : Account G H) : Prop :=
  ∃ es, b.entries = a.entries ++ es ∧ Balanced goes a.next es b.next

variable {goes : G → H → Prop} {a b c : Account G H}

namespace Settles

theorem refl (a : Account G H) : Settles goes a a := ⟨[], by simp, .nil _⟩

theorem trans (h₁ : Settles goes a b) (h₂ : Settles goes b c) : Settles goes a c := by
  obtain ⟨es, hes, hbal⟩ := h₁
  obtain ⟨fs, hfs, hbal'⟩ := h₂
  exact ⟨es ++ fs, by rw [hfs, hes, List.append_assoc], hbal.append hbal'⟩

theorem bracket {g : G} {h : H} (hgoes : goes g h) (hin : Settles goes (a.gain g) b) :
    Settles goes a (b.lose h a.next) := by
  obtain ⟨es, hes, hbal⟩ := hin
  refine ⟨.gain g a.next :: (es ++ [.lose h a.next]), ?_, .bracket hgoes hbal⟩
  simp [lose, hes, gain]

end Settles

end Account

end Ledger
