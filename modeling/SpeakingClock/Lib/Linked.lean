import Mathlib.Tactic

/-! Circular doubly linked lists: a marker, and nodes each of which points to the next one and back to the
    previous one. The pointers are functions on the nodes, and a store updates one of them at one node. The
    rules say what the stores of an insertion and of a removal make of the circle, wherever it is cut. -/

namespace Linked
variable {α : Type} {next prev next' prev' : α → α} {e n : α} {u v l : List α}

/-- Each node of the list points to the one behind it, and is pointed back at. -/
def Path (next prev : α → α) (l : List α) : Prop := l.IsChain fun a b => next a = b ∧ prev b = a

/-- The nodes `l` in a circle that the marker `e` closes. -/
structure Circle (next prev : α → α) (e : α) (l : List α) : Prop where
  nodup : (e :: l).Nodup
  path : Path next prev (e :: l ++ [e])

/-- A path needs the pointers forth of all nodes but the last, and back of all but the first. -/
theorem Path.congr (h : Path next prev l) (hnext : ∀ a ∈ l.dropLast, next' a = next a)
    (hprev : ∀ a ∈ l.tail, prev' a = prev a) : Path next' prev' l := by
  induction l with
  | nil => exact .nil
  | cons a l ih =>
    cases l with
    | nil => exact .singleton a
    | cons b l =>
      obtain ⟨⟨hab, hba⟩, hl⟩ := List.isChain_cons_cons.mp h
      refine List.isChain_cons_cons.mpr ⟨⟨?_, ?_⟩, ih hl (fun c hc => ?_) fun c hc => ?_⟩
      · rw [hnext a (by simp), hab]
      · rw [hprev b (by simp), hba]
      · exact hnext c (by simp [hc])
      · exact hprev c (List.mem_of_mem_tail hc)

/-- The circle, cut between `u` and `v`. -/
theorem circle_iff : Circle next prev e (u ++ v) ↔ (e :: (u ++ v)).Nodup ∧ Path next prev (e :: u) ∧
    Path next prev (v ++ [e]) ∧ next (u.getLastD e) = v.headD e ∧ prev (v.headD e) = u.getLastD e := by
  have hlast : (e :: u).getLast? = some (u.getLastD e) := by rw [List.getLast?_cons, List.getLastD_eq_getLast?]
  have hhead : (v ++ [e]).head? = some (v.headD e) := by
    cases v <;> simp
  have hcut : Path next prev (e :: (u ++ v) ++ [e]) ↔ Path next prev (e :: u) ∧ Path next prev (v ++ [e]) ∧
      next (u.getLastD e) = v.headD e ∧ prev (v.headD e) = u.getLastD e := by
    rw [show e :: (u ++ v) ++ [e] = (e :: u) ++ (v ++ [e]) by simp]
    unfold Path
    rw [List.isChain_append, hlast, hhead]
    simp only [Option.mem_some_iff, forall_eq']
  exact ⟨fun h => ⟨h.nodup, hcut.mp h.path⟩, fun h => ⟨h.1, hcut.mpr h.2⟩⟩

namespace Circle

theorem next_eq (h : Circle next prev e (u ++ v)) : next (u.getLastD e) = v.headD e := (circle_iff.mp h).2.2.2.1

theorem prev_eq (h : Circle next prev e (u ++ v)) : prev (v.headD e) = u.getLastD e := (circle_iff.mp h).2.2.2.2

/-- Stores at other nodes leave the circle alone. -/
theorem congr (h : Circle next prev e l) (hnext : ∀ a ∈ e :: l, next' a = next a)
    (hprev : ∀ a ∈ e :: l, prev' a = prev a) : Circle next' prev' e l := by
  refine ⟨h.nodup, h.path.congr (fun a ha => hnext a ?_) fun a ha => hprev a ?_⟩
  · rw [List.dropLast_concat] at ha
    exact ha
  · rw [List.cons_append, List.tail_cons, List.mem_append, List.mem_singleton] at ha
    rcases ha with ha | rfl
    · exact List.mem_cons_of_mem _ ha
    · exact List.mem_cons_self

theorem empty (hnext : next e = e) (hprev : prev e = e) : Circle next prev e [] :=
  ⟨by simp, List.isChain_cons_cons.mpr ⟨⟨hnext, hprev⟩, .singleton e⟩⟩

theorem headD_mem (e : α) (v : List α) : v.headD e ∈ e :: v := by
  cases v <;> simp

/-- In a circle cut between `u` and `v`, the node before the cut and the one behind it have no other place. -/
theorem cut (h : (e :: (u ++ v)).Nodup) : (∀ a ∈ (e :: u).dropLast, a ≠ u.getLastD e) ∧ (∀ a ∈ v, a ≠ u.getLastD e) ∧
    (∀ a ∈ u, a ≠ v.headD e) ∧ ∀ a ∈ (v ++ [e]).tail, a ≠ v.headD e := by
  have hlast : u.getLastD e ∈ e :: u := List.getLastD_mem_cons
  have hleft : (e :: u).Nodup := h.sublist (by simp)
  have happ : ((e :: u) ++ v).Nodup := h
  have hright : (v ++ [e]).Nodup := (happ.sublist (List.sublist_append_right (e :: u) v)).append (List.nodup_singleton e)
    (by simpa using fun he => (List.nodup_cons.mp h).1 (List.mem_append_right u he))
  refine ⟨fun a ha he => ?_, fun a ha he => ?_, fun a ha he => ?_, fun a ha he => ?_⟩
  · have hsplit : (e :: u) = (e :: u).dropLast ++ [u.getLastD e] := by
      have := (List.dropLast_append_getLast (List.cons_ne_nil e u)).symm
      rwa [List.getLast_eq_getLastD] at this
    rw [hsplit, List.nodup_append] at hleft
    exact hleft.2.2 a ha _ (by simp) he
  · exact (List.nodup_append.mp happ).2.2 _ hlast a ha he.symm
  · rcases List.mem_cons.mp (headD_mem e v) with hv | hv
    · exact (List.nodup_cons.mp hleft).1 (by rw [← hv, ← he]; exact ha)
    · exact (List.nodup_append.mp happ).2.2 a (List.mem_cons_of_mem _ ha) _ hv he
  · cases v with
    | nil => simp at ha
    | cons b v =>
      rw [List.cons_append, List.nodup_cons] at hright
      exact hright.1 (by simpa [he] using ha)

variable [DecidableEq α]

/-- A new node `n` between `u` and `v`: it points both ways, and both ways point to it. -/
theorem insert (h : Circle next prev e (u ++ v)) (hn : n ∉ e :: (u ++ v))
    (hnext : ∀ a, next' a = if a = u.getLastD e then n else if a = n then v.headD e else next a)
    (hprev : ∀ a, prev' a = if a = v.headD e then n else if a = n then u.getLastD e else prev a) :
    Circle next' prev' e (u ++ n :: v) := by
  obtain ⟨hd, hu, hv, -, -⟩ := circle_iff.mp h
  obtain ⟨hlast, hlast', hhead, hhead'⟩ := cut hd
  have hnu : n ∉ e :: u := fun hm => hn (by simp at hm ⊢; tauto)
  have hnv : n ∉ e :: v := fun hm => hn (by simp at hm ⊢; tauto)
  have hne : n ≠ u.getLastD e := fun he => hnu (he ▸ List.getLastD_mem_cons)
  have hne' : n ≠ v.headD e := fun he => hnv (he ▸ headD_mem e v)
  refine circle_iff.mpr ⟨?_, hu.congr (fun a ha => ?_) (fun a ha => ?_), ?_, ?_, ?_⟩
  · rw [← List.cons_append] at hd hn ⊢
    exact List.nodup_middle.mpr (List.nodup_cons.mpr ⟨hn, hd⟩)
  · rw [hnext, if_neg (hlast a ha), if_neg fun he : a = n => hnu (he ▸ List.mem_of_mem_dropLast ha)]
  · rw [List.tail_cons] at ha
    rw [hprev, if_neg (hhead a ha), if_neg fun he : a = n => hnu (he ▸ List.mem_cons_of_mem _ ha)]
  · refine List.isChain_cons.mpr ⟨fun b hb => ?_, hv.congr (fun a ha => ?_) fun a ha => ?_⟩
    · have hb : b = v.headD e := by
        cases v <;> simpa using hb.symm
      rw [hb, hnext, if_neg hne, if_pos rfl, hprev, if_pos rfl]
      exact ⟨rfl, rfl⟩
    · rw [List.dropLast_concat] at ha
      rw [hnext, if_neg (hlast' a ha), if_neg fun he : a = n => hnv (he ▸ List.mem_cons_of_mem _ ha)]
    · rw [hprev, if_neg (hhead' a ha), if_neg fun he : a = n => hnv ?_]
      rw [← he]
      have := List.mem_of_mem_tail ha
      simp at this ⊢
      tauto
  · rw [hnext, if_pos rfl]
    rfl
  · rw [List.headD_cons, hprev, if_neg hne', if_pos rfl]

/-- The node `n` is left out: its neighbours point to each other. -/
theorem remove (h : Circle next prev e (u ++ n :: v))
    (hnext : ∀ a, next' a = if a = u.getLastD e then v.headD e else next a)
    (hprev : ∀ a, prev' a = if a = v.headD e then u.getLastD e else prev a) : Circle next' prev' e (u ++ v) := by
  obtain ⟨hd, hu, hv, -, -⟩ := circle_iff.mp h
  rw [← List.cons_append] at hd
  have hd : (e :: (u ++ v)).Nodup := (List.nodup_cons.mp (List.nodup_middle.mp hd)).2
  obtain ⟨hlast, hlast', hhead, hhead'⟩ := cut hd
  refine circle_iff.mpr ⟨hd, hu.congr (fun a ha => ?_) (fun a ha => ?_), ?_, ?_, ?_⟩
  · rw [hnext, if_neg (hlast a ha)]
  · rw [hprev, if_neg (hhead a ha)]
  · refine Path.congr (List.isChain_cons.mp hv).2 (fun a ha => ?_) fun a ha => ?_
    · rw [List.dropLast_concat] at ha
      rw [hnext, if_neg (hlast' a ha)]
    · rw [hprev, if_neg (hhead' a ha)]
  · rw [hnext, if_pos rfl]
  · rw [hprev, if_pos rfl]

end Circle

end Linked
