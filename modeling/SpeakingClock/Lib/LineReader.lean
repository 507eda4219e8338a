import Mathlib.Tactic

/-! Readers that gather symbols up to a separator and hand each complete line to a consumer, and
    several writers on one stream.

    When writers take turns only between lines (`LineAtomic`), a reader of the merged stream reaches
    the state it reaches on the stream of one writer alone, provided its consumer ignores the lines of
    the others (`LineAtomic.feeds_st`). -/

namespace LineReader
variable {β σ : Type}

/-- The symbols since the last separator, and the state of the consumer. -/
structure Reader (β σ : Type) where
  buf : List β
  st : σ
  deriving DecidableEq, Repr

section Definitions
variable [DecidableEq β]

/-- One symbol: a separator hands the line over and empties the buffer. -/
def Reader.feed (sep : β) (f : σ → List β → σ) (r : Reader β σ) (b : β) : Reader β σ :=
  if b = sep then ⟨[], f r.st r.buf⟩ else ⟨r.buf ++ [b], r.st⟩

def Reader.feeds (sep : β) (f : σ → List β → σ) (r : Reader β σ) (bs : List β) : Reader β σ :=
  bs.foldl (Reader.feed sep f) r

/-- The complete lines of a stream, and the unfinished one after them. -/
def split (sep : β) (xs : List β) : Reader β (List (List β)) :=
  (Reader.mk [] []).feeds sep (fun ls l => ls ++ [l]) xs

def midLine (sep : β) (xs : List β) : Bool := xs.getLast?.any (· != sep)

end Definitions

/-- Each `a` has a `b` right after it. -/
def FollowedBy (a b : β) : List β → Prop
  | [] => True
  | x :: xs => (x = a → xs.head? = some b) ∧ FollowedBy a b xs

instance FollowedBy.decidable [DecidableEq β] (a b : β) : (xs : List β) → Decidable (FollowedBy a b xs)
  | [] => .isTrue trivial
  | _ :: xs => @instDecidableAnd _ _ _ (FollowedBy.decidable a b xs)

theorem FollowedBy.of_append {a b : β} {xs ys : List β} (h : FollowedBy a b (xs ++ ys)) : FollowedBy a b ys := by
  induction xs with
  | nil => exact h
  | cons _ xs ih => exact ih h.2

/-- Each line followed by the separator. -/
def unlines (sep : β) (ls : List (List β)) : List β := ls.flatMap (· ++ [sep])

@[simp] theorem unlines_append (sep : β) (ls ms : List (List β)) :
    unlines sep (ls ++ ms) = unlines sep ls ++ unlines sep ms := by simp [unlines]

theorem unlines_cons (sep : β) (l : List β) (ls : List (List β)) :
    unlines sep (l :: ls) = l ++ sep :: unlines sep ls := by simp [unlines]

section Feeds
variable [DecidableEq β] {sep : β} {f : σ → List β → σ} {r : Reader β σ}

@[simp] theorem feeds_nil : r.feeds sep f [] = r := rfl

theorem feeds_append (xs ys : List β) : r.feeds sep f (xs ++ ys) = (r.feeds sep f xs).feeds sep f ys :=
  List.foldl_append

theorem feeds_snoc (xs : List β) (b : β) : r.feeds sep f (xs ++ [b]) = (r.feeds sep f xs).feed sep f b := by
  rw [feeds_append]; rfl

theorem feeds_of_not_mem {xs : List β} (h : sep ∉ xs) : r.feeds sep f xs = ⟨r.buf ++ xs, r.st⟩ := by
  induction xs generalizing r with
  | nil => simp
  | cons x xs ih =>
    simp only [List.mem_cons, not_or] at h
    have hx : r.feed sep f x = ⟨r.buf ++ [x], r.st⟩ := by simp [Reader.feed, Ne.symm h.1]
    calc r.feeds sep f (x :: xs) = (r.feed sep f x).feeds sep f xs := rfl
      _ = ⟨r.buf ++ (x :: xs), r.st⟩ := by rw [hx, ih h.2]; simp

theorem feeds_line {l : List β} (h : sep ∉ l) : r.feeds sep f (l ++ [sep]) = ⟨[], f r.st (r.buf ++ l)⟩ := by
  rw [feeds_snoc, feeds_of_not_mem h]
  simp [Reader.feed]

theorem feeds_unlines {ls : List (List β)} (h : ∀ l ∈ ls, sep ∉ l) (s : σ) :
    (Reader.mk [] s).feeds sep f (unlines sep ls) = ⟨[], ls.foldl f s⟩ := by
  induction ls generalizing s with
  | nil => rfl
  | cons l ls ih =>
    simp only [unlines, List.flatMap_cons] at ih ⊢
    rw [feeds_append, feeds_line (h l List.mem_cons_self), List.nil_append,
      ih fun l' hl' => h l' (List.mem_cons_of_mem _ hl')]
    rfl

/-- A consumer that another one abstracts: reading commutes with the abstraction. -/
theorem feeds_map {τ : Type} {g : σ → τ} {f' : τ → List β → τ} (hg : ∀ s l, g (f s l) = f' (g s) l) (xs : List β) :
    (Reader.mk r.buf (g r.st)).feeds sep f' xs = ⟨(r.feeds sep f xs).buf, g (r.feeds sep f xs).st⟩ := by
  induction xs using List.reverseRecOn with
  | nil => rfl
  | append_singleton xs b ih =>
    rw [feeds_snoc, feeds_snoc, ih]
    unfold Reader.feed
    split
    · rw [hg]
    · rfl

end Feeds

/-! ### Lines of a stream -/

section Split
variable [DecidableEq β] {sep : β}

@[simp] theorem split_nil : split sep [] = ⟨[], []⟩ := rfl

theorem split_snoc_sep (xs : List β) : split sep (xs ++ [sep]) = ⟨[], (split sep xs).st ++ [(split sep xs).buf]⟩ := by
  unfold split
  rw [feeds_snoc]
  simp [Reader.feed]

theorem split_snoc_ne (xs : List β) {b : β} (h : b ≠ sep) :
    split sep (xs ++ [b]) = ⟨(split sep xs).buf ++ [b], (split sep xs).st⟩ := by
  unfold split
  rw [feeds_snoc]
  simp [Reader.feed, h]

@[simp] theorem midLine_nil : midLine sep ([] : List β) = false := rfl

@[simp] theorem midLine_snoc (xs : List β) (b : β) : midLine sep (xs ++ [b]) = (b != sep) := by simp [midLine]

theorem split_buf_of_not_midLine {xs : List β} (h : midLine sep xs = false) : (split sep xs).buf = [] := by
  induction xs using List.reverseRecOn with
  | nil => rfl
  | append_singleton xs b _ =>
    rw [midLine_snoc, bne_eq_false_iff_eq] at h
    rw [h, split_snoc_sep]

theorem split_unlines {ls : List (List β)} (h : ∀ l ∈ ls, sep ∉ l) : split sep (unlines sep ls) = ⟨[], ls⟩ := by
  have collect : ∀ ms ns : List (List β), ns.foldl (fun ls l => ls ++ [l]) ms = ms ++ ns := fun ms ns => by
    induction ns generalizing ms with
    | nil => simp
    | cons n ns ih => simp [ih]
  unfold split
  rw [feeds_unlines h, collect, List.nil_append]

theorem unlines_split (xs : List β) : unlines sep (split sep xs).st ++ (split sep xs).buf = xs := by
  induction xs using List.reverseRecOn with
  | nil => rfl
  | append_singleton xs b ih =>
    by_cases hb : b = sep
    · rw [hb, split_snoc_sep, unlines_append, unlines_cons]
      simpa [unlines] using congrArg (· ++ [sep]) ih
    · rw [split_snoc_ne _ hb, ← List.append_assoc, ih]

theorem not_mem_split (xs : List β) : (∀ l ∈ (split sep xs).st, sep ∉ l) ∧ sep ∉ (split sep xs).buf := by
  induction xs using List.reverseRecOn with
  | nil => simp
  | append_singleton xs b ih =>
    by_cases hb : b = sep
    · rw [hb, split_snoc_sep]
      refine ⟨fun l hl => ?_, by simp⟩
      rcases List.mem_append.mp hl with hl | hl
      · exact ih.1 l hl
      · rw [List.mem_singleton.mp hl]
        exact ih.2
    · rw [split_snoc_ne _ hb]
      exact ⟨ih.1, by simp [ih.2, Ne.symm hb]⟩

theorem not_mem_of_mem_split {xs l : List β} (h : l ∈ (split sep xs).st) : sep ∉ l := (not_mem_split xs).1 l h

theorem split_st_grows (xs ys : List β) : (split sep xs).st <+: (split sep (xs ++ ys)).st := by
  induction ys using List.reverseRecOn with
  | nil => simp
  | append_singleton ys b ih =>
    rw [← List.append_assoc]
    by_cases hb : b = sep
    · rw [hb, split_snoc_sep]
      exact ih.trans (List.prefix_append _ _)
    · rw [split_snoc_ne _ hb]
      exact ih

/-- What the buffer holds does not depend on the consumer. -/
theorem feeds_buf_eq_split {f : σ → List β → σ} (s : σ) (xs : List β) :
    ((Reader.mk [] s).feeds sep f xs).buf = (split sep xs).buf := by
  induction xs using List.reverseRecOn with
  | nil => rfl
  | append_singleton xs b ih =>
    rw [feeds_snoc]
    by_cases hb : b = sep
    · rw [hb, split_snoc_sep]; simp [Reader.feed]
    · rw [split_snoc_ne _ hb]; simp [Reader.feed, hb, ih]

end Split

/-! ### Lines woven into others -/

/-- `ws` is `ls` with lines of `F` placed anywhere before, between and after its lines. -/
inductive Woven (F : List β → Prop) : List (List β) → List (List β) → Prop where
  | nil : Woven F [] []
  | own (l : List β) {ls ws : List (List β)} : Woven F ls ws → Woven F (l :: ls) (l :: ws)
  | other {l : List β} {ls ws : List (List β)} : F l → Woven F ls ws → Woven F ls (l :: ws)

section Woven
variable {F : List β → Prop} {ls ws : List (List β)}

/-- A consumer that ignores the placed lines ends where it ends without them. -/
theorem Woven.foldl_eq {f : σ → List β → σ} (h : Woven F ls ws) (ignored : ∀ l, F l → ∀ s, f s l = s) (s : σ) :
    ws.foldl f s = ls.foldl f s := by
  induction h generalizing s with
  | nil => rfl
  | own l _ ih => exact ih (f s l)
  | other hl _ ih => rw [List.foldl_cons, ignored _ hl, ih]

theorem Woven.forall_mem {P : List β → Prop} (h : Woven F ls ws) (hF : ∀ l, F l → P l) (hls : ∀ l ∈ ls, P l) :
    ∀ l ∈ ws, P l := by
  induction h with
  | nil => simp
  | own l _ ih =>
    intro l' hl'
    rcases List.mem_cons.mp hl' with rfl | hl'
    · exact hls _ List.mem_cons_self
    · exact ih (fun l hl => hls l (List.mem_cons_of_mem _ hl)) l' hl'
  | other hl _ ih =>
    intro l' hl'
    rcases List.mem_cons.mp hl' with rfl | hl'
    · exact hF _ hl
    · exact ih hls l' hl'

end Woven

/-! ### Several writers -/

section Writers
variable {ω : Type} [DecidableEq ω]

def own (t : ω) (ws : List (ω × β)) : List β := ws.filterMap fun w => if w.1 = t then some w.2 else none

@[simp] theorem own_nil (t : ω) : own t ([] : List (ω × β)) = [] := rfl

@[simp] theorem own_append (t : ω) (ws vs : List (ω × β)) : own t (ws ++ vs) = own t ws ++ own t vs := by
  simp [own]

@[simp] theorem own_singleton_self (t : ω) (b : β) : own t [(t, b)] = [b] := by simp [own]

theorem own_map_self (t : ω) (bs : List β) : own t (bs.map (t, ·)) = bs := by
  simp [own, List.filterMap_map]

theorem own_map_ne {t t' : ω} (h : t' ≠ t) (bs : List β) : own t (bs.map (t', ·)) = [] := by
  simp [own, List.filterMap_map, h]

theorem own_singleton_ne {t t' : ω} (h : t' ≠ t) (b : β) : own t [(t', b)] = [] := by simp [own, h]

variable [DecidableEq β] {sep : β}

/-- Each symbol is written while no other writer is inside a line. -/
inductive LineAtomic (sep : β) : List (ω × β) → Prop where
  | nil : LineAtomic sep []
  | snoc {ws : List (ω × β)} (t : ω) (b : β) : LineAtomic sep ws →
      (∀ t', t' ≠ t → midLine sep (own t' ws) = false) → LineAtomic sep (ws ++ [(t, b)])

theorem LineAtomic.single (t : ω) (bs : List β) : LineAtomic sep (bs.map (t, ·)) := by
  induction bs using List.reverseRecOn with
  | nil => exact .nil
  | append_singleton bs b ih =>
    rw [List.map_append, List.map_singleton]
    refine .snoc t b ih fun t' ht' => ?_
    rw [own_map_ne (Ne.symm ht'), midLine_nil]

variable {f : σ → List β → σ} {ws : List (ω × β)} {k : ω}

/-- Between turns the reader's buffer holds the unfinished line of the writer inside one, if any. -/
theorem LineAtomic.feeds_buf (h : LineAtomic sep ws) (s : σ) (t : ω)
    (excl : ∀ t', t' ≠ t → midLine sep (own t' ws) = false) :
    ((Reader.mk [] s).feeds sep f (ws.map (·.2))).buf = (split sep (own t ws)).buf := by
  induction h generalizing t with
  | nil => rfl
  | @snoc ws t₀ b _ excl₀ ih =>
    rw [List.map_append, List.map_singleton, feeds_snoc, own_append]
    have hbuf := ih t₀ excl₀
    by_cases hb : b = sep
    · -- After a separator nobody is inside a line.
      have hclosed : midLine sep (own t (ws ++ [(t₀, b)])) = false := by
        by_cases ht : t₀ = t
        · simp [ht, hb]
        · simpa [own_singleton_ne ht] using excl₀ t (Ne.symm ht)
      rw [own_append] at hclosed
      simp [Reader.feed, hb, split_buf_of_not_midLine (hb ▸ hclosed)]
    · -- The writer of any other symbol is now inside a line, so it is `t`.
      have ht : t₀ = t := by
        by_contra hne
        have := excl t₀ hne
        simp [hb] at this
      subst ht
      rw [own_singleton_self, split_snoc_ne _ hb]
      simp [Reader.feed, hb, hbuf]

/-- A reader of the merged stream reaches the state it reaches on writer `k` alone, when its consumer
    ignores every complete line of the other writers. -/
theorem LineAtomic.feeds_st (h : LineAtomic sep ws) (s : σ)
    (ignored : ∀ t, t ≠ k → ∀ l ∈ (split sep (own t ws)).st, ∀ s, f s l = s) :
    ((Reader.mk [] s).feeds sep f (ws.map (·.2))).st = ((Reader.mk [] s).feeds sep f (own k ws)).st := by
  induction h with
  | nil => rfl
  | @snoc ws t b hws excl ih =>
    have hst := ih fun t' ht' l hl => ignored t' ht' l (by
      rw [own_append]
      exact (split_st_grows _ _).subset hl)
    have hbuf := hws.feeds_buf (f := f) s t excl
    rw [List.map_append, List.map_singleton, feeds_snoc, own_append]
    by_cases ht : t = k
    · subst ht
      rw [own_singleton_self, feeds_snoc]
      unfold Reader.feed
      split
      · simp only [hst, hbuf, feeds_buf_eq_split]
      · exact hst
    · rw [own_singleton_ne ht, List.append_nil, ← hst]
      unfold Reader.feed
      split
      · rename_i hb
        change b = sep at hb
        refine ignored t ht _ ?_ _
        rw [own_append, own_singleton_self, hb, split_snoc_sep, hbuf]
        simp
      · rfl

end Writers

end LineReader
