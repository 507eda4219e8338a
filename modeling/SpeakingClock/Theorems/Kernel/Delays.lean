import SpeakingClock.Theorems.Kernel.Filing

/-! What the functions of the scheduler do to the lists: the loops over the delayed and the pending tasks, the
    ticks, and the choice of a task. None of them is stuck, and each goes on by moves of the agenda. -/

namespace SpeakingClock.Kernel
open Function (update)
open Turns (TaskEvent waiting Move Moves)

namespace Sched
variable {σ ι ε : Type} [DecidableEq ι] {R : σ → Lists (Item ι) (ListId ε) → Prop} {k k' lax : Nat}
  {s s' s'' : Sched σ ι ε} {x y z : Lists (Item ι) (ListId ε)} {t u : ι}

/-! ### What comes of a function -/

/-- What comes of a function that counts `k` ticks: the agenda moves on, and nobody is made to wait. -/
structure Went (k : Nat) (s : Sched σ ι ε) (x : Lists (Item ι) (ListId ε)) (s' : Sched σ ι ε)
    (y : Lists (Item ι) (ListId ε)) : Prop where
  moves : Moves s.uxPriority (s.agenda x) (s'.agenda y)
  kept : Kept k s s'
  ready : ∀ t, waiting t s.history = none → waiting t s'.history = none

theorem Went.trans (h : Went k s x s' y) (h' : Went k' s' y s'' z) : Went (k + k') s x s'' z where
  moves := h.moves.trans (h.kept.uxPriority ▸ h'.moves)
  kept := h.kept.trans h'.kept
  ready t ht := h'.ready t (h.ready t ht)

/-- Nothing but the lists and what is kept beside them changes, and no ready list. -/
theorem Went.of_eq (hkept : Kept 0 s s') (hturns : ∀ p, y.turns (.ready p) = x.turns (.ready p))
    (hhistory : s'.history = s.history) : Went 0 s x s' y where
  moves := by
    unfold agenda
    simp only [hturns, hhistory]
    exact .refl _
  kept := hkept
  ready t ht := by rwa [hhistory]

theorem waiting_entered {es : List (TaskEvent ι)} {e : TaskEvent ι} (he : e = .timedOut t ∨ e = .readied t) (u : ι) :
    waiting u (es ++ [e]) = if t = u then none else waiting u es := by
  rcases he with rfl | rfl
  · exact Turns.waiting_timedOut
  · exact Turns.waiting_readied

/-- A task gets its place in a ready list. -/
theorem Went.entered {e : TaskEvent ι} {h' : σ} (hmove : Move s.uxPriority (s.agenda x) ((s.entered t e h').agenda y))
    (he : e = .timedOut t ∨ e = .readied t) : Went 0 s x (s.entered t e h') y where
  moves := hmove.moves
  kept := ⟨rfl, rfl, rfl, rfl, rfl, rfl, by rcases he with rfl | rfl <;> simp [Sched.entered],
    by rcases he with rfl | rfl <;> simp [Sched.entered]⟩
  ready u hu := by
    refine (waiting_entered he u).trans ?_
    rw [hu, ite_self]

theorem Leads.entered {e : TaskEvent ι} {h' : σ} (h : s.Leads) (he : e = .timedOut t ∨ e = .readied t)
    (hle : s.uxPriority t ≤ s.uxPriority s.pxCurrentTCB) : (s.entered t e h').Leads := by
  intro u hu
  rw [show waiting u (s.entered t e h').history = _ from waiting_entered he u] at hu
  by_cases htu : t = u
  · exact htu ▸ hle
  · rw [if_neg htu] at hu
    exact h u hu

/-! ### The clock -/

/-- The state after the tick count wrapped. -/
def wrapped (s : Sched σ ι ε) (xNextTaskUnblockTime : UInt32) : Sched σ ι ε :=
  { s with
    pxDelayedTaskList := s.pxOverflowDelayedTaskList
    pxOverflowDelayedTaskList := s.pxDelayedTaskList
    xTickCount := s.xTickCount + 1
    xNumOfOverflows := s.xNumOfOverflows + 1
    xNextTaskUnblockTime := xNextTaskUnblockTime
    history := s.history ++ [.tick] }

namespace Inv

/-- When the tasks of the delayed list have to wait on, no time has come. -/
theorem relax (h : Inv R none none lax s x) {v : UInt32}
    (hlater : ∀ i ∈ x.items s.pxDelayedTaskList, s.xTickCount < x.xItemValue i)
    (hunblock : ∀ i ∈ x.items s.pxDelayedTaskList, v ≤ x.xItemValue i) :
    Inv R none none 0 { s with xNextTaskUnblockTime := v } x := by
  refine { h with filed := fun u _ => ?_, unblock := hunblock }
  obtain ⟨l, hl, hfiled⟩ := h.filed u (by simp)
  refine ⟨l, hl, hfiled.later (j := 0) (by simp) rfl fun n k ht => ht.imp (fun hd => ?_) id⟩
  obtain ⟨rfl, hvalue, -⟩ := hd
  have hlt := hlater _ (x.mem_items.mpr hl)
  rw [UInt32.lt_iff_toNat_lt] at hlt
  exact ⟨rfl, hvalue, by omega⟩

/-- The head of the delayed list is the first to wake. -/
theorem head_le (h : Inv R none none lax s x) {i : Item ι} {is : List (Item ι)}
    (hitems : x.items s.pxDelayedTaskList = i :: is) :
    ∀ j ∈ x.items s.pxDelayedTaskList, x.xItemValue i ≤ x.xItemValue j := by
  have hsorted : x.Sorted s.pxDelayedTaskList := by
    rcases h.delayed with ⟨hd, -⟩ | ⟨hd, -⟩ <;> rw [hd]
    · exact h.sorted.1
    · exact h.sorted.2
  unfold Lists.Sorted at hsorted
  rw [hitems, List.pairwise_cons] at hsorted
  intro j hj
  rw [hitems] at hj
  rcases List.mem_cons.mp hj with rfl | hj
  · exact UInt32.le_refl _
  · exact hsorted.1 j hj

/-- Nobody waits longer than until its time. -/
theorem inTime (h : Inv R none none 0 s x) {n k : Nat} (hw : waiting t s.history = some (some n, k)) : k < n := by
  obtain ⟨l, -, hfiled⟩ := h.filed t (by simp)
  have htick := s.xTickCount.toNat_lt
  rcases (filed_timed hw).mp hfiled with ⟨-, -, hk⟩ | ⟨-, hk⟩ <;> omega

theorem sysTick (h : Inv R none none 0 s x) : Inv R none none 0 (s.log .sysTick) x := by
  refine { h with filed := fun t _ => ?_, waits := fun t ht => ?_, ticks := ?_ }
  · obtain ⟨l, hl, hfiled⟩ := h.filed t (by simp)
    exact ⟨l, hl, hfiled.congr Turns.waiting_sysTick rfl rfl rfl rfl rfl⟩
  · exact (h.waits t ht).imp_left fun hw => by rwa [log, Turns.waiting_sysTick]
  · change s.xTickCount = UInt32.ofNat ((s.history ++ [TaskEvent.sysTick]).count TaskEvent.tick)
    rw [h.ticks, List.count_append]
    rfl

/-- The tick count goes up. -/
theorem tick (h : Inv R none none 0 s x) (hne : s.xTickCount + 1 ≠ 0) :
    Inv R none none 1 ({ s with xTickCount := s.xTickCount + 1 }.log .tick) x := by
  have hadd : (s.xTickCount + 1).toNat = (s.xTickCount.toNat + 1) % 2 ^ 32 := UInt32.toNat_add ..
  have hlt := s.xTickCount.toNat_lt
  have hpos : (s.xTickCount + 1).toNat ≠ 0 := fun he => hne (UInt32.toNat_inj.mp he)
  refine { h with filed := fun t _ => ?_, waits := fun t ht => ?_, ticks := ?_ }
  · obtain ⟨l, hl, hfiled⟩ := h.filed t (by simp)
    refine ⟨l, hl, hfiled.later Turns.waiting_tick rfl fun n k ht => ?_⟩
    rcases ht with ⟨rfl, hvalue, hk⟩ | ⟨rfl, hvalue⟩
    · refine .inl ⟨rfl, ?_, ?_⟩
      · change _ = (s.xTickCount + 1).toNat + n
        omega
      · omega
    · refine .inr ⟨rfl, ?_⟩
      change _ = (s.xTickCount + 1).toNat + n
      omega
  · refine (h.waits t ht).imp_left fun hw => ?_
    simpa [log] using hw
  · change s.xTickCount + 1 = UInt32.ofNat ((s.history ++ [TaskEvent.tick]).count TaskEvent.tick)
    rw [h.ticks, List.count_append, List.count_singleton_self, UInt32.ofNat_add]
    rfl

/-- When it wraps, the delayed list is empty. -/
theorem delayed_nil (h : Inv R none none 0 s x) (hzero : s.xTickCount + 1 = 0) : x.items s.pxDelayedTaskList = [] := by
  have hadd : (s.xTickCount + 1).toNat = (s.xTickCount.toNat + 1) % 2 ^ 32 := UInt32.toNat_add ..
  have hzero' : (s.xTickCount + 1).toNat = 0 := by rw [hzero]; rfl
  rw [List.eq_nil_iff_forall_not_mem]
  intro i hi
  obtain ⟨t, rfl⟩ := h.state_of_delayed hi
  obtain ⟨n, k, -, hvalue, hk⟩ := h.soon (x.mem_items.mp hi)
  have hlt := (x.xItemValue (.state t)).toNat_lt
  omega

/-- Then the lists change places. -/
theorem swap (h : Inv R none none 0 s x) (hzero : s.xTickCount + 1 = 0) : Inv R none none 1 (s.wrapped 0) x := by
  have hadd : (s.xTickCount + 1).toNat = (s.xTickCount.toNat + 1) % 2 ^ 32 := UInt32.toNat_add ..
  have hlt := s.xTickCount.toNat_lt
  have hzero' : (s.xTickCount + 1).toNat = 0 := by rw [hzero]; rfl
  refine { h with filed := fun t _ => ?_, waits := fun t ht => ?_, delayed := ?_, ticks := ?_, unblock := fun i _ => ?_ }
  · obtain ⟨l, hl, hfiled⟩ := h.filed t (by simp)
    refine ⟨l, hl, hfiled.later Turns.waiting_tick rfl fun n k ht => ?_⟩
    rcases ht with ⟨rfl, -⟩ | ⟨rfl, hvalue⟩
    · rw [← x.mem_items, h.delayed_nil hzero] at hl
      cases hl
    · refine .inl ⟨rfl, ?_, ?_⟩
      · change _ = (s.xTickCount + 1).toNat + n
        omega
      · omega
  · refine (h.waits t ht).imp_left fun hw => ?_
    simpa [wrapped] using hw
  · rcases h.delayed with ⟨hd, ho⟩ | ⟨hd, ho⟩
    · exact .inr ⟨ho, hd⟩
    · exact .inl ⟨ho, hd⟩
  · change s.xTickCount + 1 = UInt32.ofNat ((s.history ++ [TaskEvent.tick]).count TaskEvent.tick)
    rw [h.ticks, List.count_append, List.count_singleton_self, UInt32.ofNat_add]
    rfl
  · exact UInt32.zero_le

end Inv

variable [ListImpl σ (Item ι) (ListId ε)]

omit [DecidableEq ι] in
/-- While the scheduler is suspended a tick is owed. -/
theorem xTaskIncrementTick_suspended (hs : s.uxSchedulerSuspended ≠ 0) :
    s.xTaskIncrementTick = some (false, { s with xPendedTicks := s.xPendedTicks + 1 }) := by
  unfold xTaskIncrementTick
  rw [if_neg hs]

namespace Inv
variable [DecidableEq ε] [Simulates R]

/-! ### The choice of a task -/

theorem taskSelectHighestPriorityTask (h : Inv R none none 0 s x) (hu : waiting u s.history = none) :
    ∃ h' t y, s.taskSelectHighestPriorityTask =
        some { s with lists := h', pxCurrentTCB := t, history := s.history ++ [.chosen t] } ∧
      Inv R none none 0 { s with lists := h', pxCurrentTCB := t, history := s.history ++ [.chosen t] } y ∧
      Move s.uxPriority (s.agenda x)
        (agenda { s with lists := h', pxCurrentTCB := t, history := s.history ++ [.chosen t] } y) ∧
      waiting t s.history = none ∧ (∀ v, waiting v s.history = none → s.uxPriority v ≤ s.uxPriority t) ∧
      y.items = x.items := by
  have hready {v : ι} (hv : waiting v s.history = none) : Item.state v ∈ x.items (.ready (s.uxPriority v)) :=
    x.mem_items.mpr (h.ready_iff.mpr ⟨rfl, hv⟩)
  have hbit {v : ι} (hv : waiting v s.history = none) : s.uxTopReadyPriority.getLsbD (s.uxPriority v) = true :=
    (h.top _).mpr ⟨(s.uxPriority v).isLt, List.ne_nil_of_mem (hready hv)⟩
  obtain ⟨htop, habove⟩ := portGetHighestPriority_spec (hbit hu)
  obtain ⟨hlt, hne⟩ := (h.top _).mp htop
  have hturns : x.turns (.ready ⟨_, hlt⟩) ≠ [] := by
    obtain ⟨i, hi⟩ := List.exists_mem_of_ne_nil _ hne
    exact List.ne_nil_of_mem (x.mem_turns.mpr hi)
  obtain ⟨i, ts, hhead⟩ := List.exists_cons_of_ne_nil hturns
  have hi := x.mem_turns.mp (hhead ▸ List.mem_cons_self (a := i))
  obtain ⟨t, rfl⟩ := h.state_of_ready hi
  obtain ⟨hp, ht⟩ := h.ready_iff.mp (x.mem_items.mp hi)
  have hhighest (v : ι) (hv : waiting v s.history = none) : s.uxPriority v ≤ s.uxPriority t := by
    refine le_of_not_gt fun hgt => ?_
    rw [← hp] at hgt
    have := habove _ hgt
    rw [hbit hv] at this
    cases this
  obtain ⟨h', y, hrun, hr, hturned⟩ := Lists.next_of h.lists hhead
  refine ⟨h', t, y, ?_, ?_, ?_, ht, hhighest, hturned.items⟩
  · unfold Sched.taskSelectHighestPriorityTask
    rw [dif_pos hlt, Lists.length_of h.lists, if_neg (by simpa using hne), hrun]
    rfl
  · have hsorted {l : ListId ε} (hs : x.Sorted l) : y.Sorted l := by
      unfold Lists.Sorted
      rw [hturned.items, hturned.value]
      exact hs
    refine ⟨hr, fun _ hv => by (cases hv), fun v _ => ?_, fun v l hl => ?_, fun v hv => ?_, h.delayed, ?_, fun j => ?_,
      ⟨hsorted h.sorted.1, hsorted h.sorted.2⟩, fun j hj => ?_⟩
    · obtain ⟨l, hl, hfiled⟩ := h.filed v (by simp)
      rw [hturned.container]
      exact ⟨l, hl, hfiled.congr Turns.waiting_chosen (congrFun hturned.value _) rfl rfl rfl rfl⟩
    · rw [hturned.container] at hl
      exact h.event v l hl
    · rw [hturned.container] at hv
      rw [Turns.waiting_chosen]
      exact h.waits v hv
    · rw [h.ticks, List.count_append]
      rfl
    · rw [hturned.items]
      exact h.top j
    · rw [hturned.items] at hj
      rw [hturned.value]
      exact h.unblock j hj
  · have hagenda : agenda { s with lists := h', pxCurrentTCB := t, history := s.history ++ [.chosen t] } y =
        ⟨update (s.agenda x).turns (s.uxPriority t) (ts.map Item.owner ++ [t]), (s.agenda x).history ++ [.chosen t]⟩ := by
      refine congrArg₂ Turns.Agenda.mk (funext fun p => ?_) rfl
      by_cases hpt : p = s.uxPriority t
      · rw [hpt, Function.update_self, ← hp, hturned.self, List.map_append]
        rfl
      · rw [Function.update_of_ne hpt, hturned.turns _ (by simpa [hp] using hpt)]
        rfl
    rw [hagenda]
    refine .choose t ?_ fun p hgt => ?_
    · rw [← hp]
      exact congrArg (List.map Item.owner) hhead
    · unfold agenda
      rw [List.map_eq_nil_iff, List.eq_nil_iff_forall_not_mem]
      intro j hj
      obtain ⟨v, rfl⟩ := h.state_of_ready (x.mem_turns.mp hj)
      obtain ⟨rfl, hv⟩ := h.ready_iff.mp (x.mem_items.mp (x.mem_turns.mp hj))
      exact absurd (hhighest v hv) (not_le_of_gt hgt)

/-! ### The tasks whose time has come -/

/-- The loop of `xTaskIncrementTick`. -/
theorem unblockTasks (h : Inv R none none 1 s x) {fuel : Nat} (hfuel : (x.items s.pxDelayedTaskList).length < fuel)
    (sw : Bool) : ∃ b s' y, Sched.unblockTasks fuel s sw = some (b, s') ∧ Inv R none none 0 s' y ∧ Went 0 s x s' y ∧
      s'.xYieldPending = s.xYieldPending ∧ (b = false → sw = false ∧ (s.Leads → s'.Leads)) ∧
      (x.items .pendingReady = [] → y.items .pendingReady = []) := by
  induction fuel generalizing s x sw with
  | zero => cases hfuel
  | succ fuel ih =>
    unfold Sched.unblockTasks
    rw [Lists.length_of h.lists, Lists.head_of h.lists]
    cases hitems : x.items s.pxDelayedTaskList with
    | nil =>
      exact ⟨sw, _, x, rfl, h.relax (v := maxDelay) (by simp [hitems]) (by simp [hitems]),
        .of_eq ⟨rfl, rfl, rfl, rfl, rfl, rfl, rfl, rfl⟩ (fun _ => rfl) rfl, rfl, fun hb => ⟨hb, id⟩, id⟩
    | cons i is =>
      have hi : i ∈ x.items s.pxDelayedTaskList := hitems ▸ List.mem_cons_self
      obtain ⟨t, rfl⟩ := h.state_of_delayed hi
      have hin := x.mem_items.mp hi
      obtain ⟨n, k, hw, hvalue, hk⟩ := h.soon hin
      simp only [List.length_cons, Nat.succ_ne_zero, if_false, List.head?_cons, Option.bind_some, Item.owner,
        Lists.value_of h.lists]
      split
      · rename_i hlt
        exact ⟨sw, _, x, rfl, h.relax (fun j hj => UInt32.lt_of_lt_of_le hlt (h.head_le hitems j hj)) (h.head_le hitems),
          .of_eq ⟨rfl, rfl, rfl, rfl, rfl, rfl, rfl, rfl⟩ (fun _ => rfl) rfl, rfl, fun hb => ⟨hb, id⟩, id⟩
      · rename_i hge
        obtain rfl : k = n := by
          rw [UInt32.lt_iff_toNat_lt] at hge
          omega
        have hready (p : Fin configMaxPriorities) : s.pxDelayedTaskList ≠ .ready p := by
          rcases h.delayed with ⟨hd, -⟩ | ⟨hd, -⟩ <;> simp [hd]
        obtain ⟨h₁, x₁, hrun₁, htook₁, hinv₁⟩ := h.takeState hin hready
        obtain ⟨h₂, x₂, hrun₂, htook₂, hinv₂⟩ := hinv₁.removeFromEvent t
        obtain ⟨h₃, x₃, hrun₃, hinv₃, hmove, hput⟩ := hinv₂.addReady htook₂.container_self (.inl ⟨rfl, k, hw⟩)
        rw [hrun₁, Option.bind_some, hrun₂, Option.bind_some, hrun₃, Option.bind_some]
        have hturns (p : Fin configMaxPriorities) : x₂.turns (.ready p) = x.turns (.ready p) := by
          refine (htook₂.turns_of_ne fun he => ?_).trans (htook₁.turns_of_ne ?_)
          · rcases hinv₁.event t _ he with he | ⟨e, he⟩ <;> cases he
          · rw [hin]
            exact fun he => hready p (Option.some.inj he)
        have hfuel₃ : (x₃.items s.pxDelayedTaskList).length < fuel := by
          rw [hput.items _ (hready _), htook₂.items, htook₁.items, hitems, List.erase_cons_head]
          have := List.length_erase_le (a := Item.event t) (l := is)
          rw [hitems, List.length_cons] at hfuel
          omega
        obtain ⟨b, s', y, hrun, hinv, hwent, hyield, hb, hpending⟩ :=
          ih hinv₃ hfuel₃ (sw || s.uxPriority s.pxCurrentTCB < s.uxPriority t)
        have hstart : Went 0 s x { s with lists := h₂ } x₂ := .of_eq ⟨rfl, rfl, rfl, rfl, rfl, rfl, rfl, rfl⟩ hturns rfl
        refine ⟨b, s', y, hrun, hinv, (hstart.trans (.entered hmove (.inl rfl))).trans hwent, hyield, fun hfalse => ?_,
          fun hnil => hpending ?_⟩
        · obtain ⟨hsw, hleads⟩ := hb hfalse
          rw [Bool.or_eq_false_iff, decide_eq_false_iff_not, not_lt] at hsw
          exact ⟨hsw.1, fun hlead => hleads (Leads.entered hlead (.inl rfl) hsw.2)⟩
        · rw [hput.items _ (by simp), htook₂.items, htook₁.items, hnil]
          rfl

/-! ### The ticks -/

theorem prvResetNextTaskUnblockTime (h : Inv R none none lax { s with xNextTaskUnblockTime := 0 } x) :
    ∃ v, s.prvResetNextTaskUnblockTime = some { s with xNextTaskUnblockTime := v } ∧
      Inv R none none lax { s with xNextTaskUnblockTime := v } x := by
  have hlists : R s.lists x := h.lists
  unfold Sched.prvResetNextTaskUnblockTime
  rw [Lists.length_of hlists, Lists.head_of hlists]
  cases hitems : x.items s.pxDelayedTaskList with
  | nil =>
    refine ⟨maxDelay, rfl, { h with unblock := fun i hi => ?_ }⟩
    change i ∈ x.items s.pxDelayedTaskList at hi
    rw [hitems] at hi
    cases hi
  | cons i is =>
    refine ⟨x.xItemValue i, ?_, { h with unblock := h.head_le hitems }⟩
    rw [if_neg (by simp), List.head?_cons, Option.map_some, Lists.value_of hlists]

/-- The tick count wraps. -/
theorem wrap (h : Inv R none none 0 s x) (hzero : s.xTickCount + 1 = 0) :
    ∃ v, ({ s with xTickCount := s.xTickCount + 1 }.log .tick).taskSwitchDelayedLists = some (s.wrapped v) ∧
      Inv R none none 1 (s.wrapped v) x := by
  obtain ⟨v, hrun, hinv⟩ := prvResetNextTaskUnblockTime (s := s.wrapped s.xNextTaskUnblockTime) (h.swap hzero)
  refine ⟨v, ?_, hinv⟩
  unfold taskSwitchDelayedLists
  rw [if_pos]
  · exact hrun
  · change ListImpl.listCurrentListLength s.lists s.pxDelayedTaskList = 0
    rw [Lists.length_of h.lists, h.delayed_nil hzero]
    rfl

theorem countTick (h : Inv R none none 0 s x) : ∃ s',
    (if s.xTickCount + 1 = 0 then ({ s with xTickCount := s.xTickCount + 1 }.log .tick).taskSwitchDelayedLists
      else some ({ s with xTickCount := s.xTickCount + 1 }.log .tick)) = some s' ∧
      Inv R none none 1 s' x ∧ Went 1 s x s' x ∧ s'.xYieldPending = s.xYieldPending ∧ (s.Leads → s'.Leads) := by
  have hwent (s' : Sched σ ι ε) (hhistory : s'.history = s.history ++ [.tick]) (hprio : s'.uxPriority = s.uxPriority)
      (hcontrol : s'.control = s.control) (hcurrent : s'.pxCurrentTCB = s.pxCurrentTCB)
      (hpended : s'.xPendedTicks = s.xPendedTicks) (hsuspended : s'.uxSchedulerSuspended = s.uxSchedulerSuspended)
      (hpendSV : s'.pendSV = s.pendSV) : Went 1 s x s' x ∧ (s.Leads → s'.Leads) := by
    have hkept : Kept 1 s s' := ⟨hprio, hcontrol, hcurrent, hpended, hsuspended, hpendSV, by simp [hhistory], by simp [hhistory]⟩
    refine ⟨⟨Move.moves ?_, hkept, fun t ht => by simp [hhistory, ht]⟩, fun hleads t ht => ?_⟩
    · unfold agenda
      rw [hhistory]
      exact .tick fun t n k hw => h.inTime hw
    · rw [hprio, hcurrent]
      refine hleads t ?_
      simpa [hhistory] using ht
  split
  · rename_i hzero
    obtain ⟨v, hrun, hinv⟩ := h.wrap hzero
    obtain ⟨hwent, hleads⟩ := hwent (s.wrapped v) rfl rfl rfl rfl rfl rfl rfl
    exact ⟨_, hrun, hinv, hwent, rfl, hleads⟩
  · rename_i hne
    obtain ⟨hwent, hleads⟩ := hwent ({ s with xTickCount := s.xTickCount + 1 }.log .tick) rfl rfl rfl rfl rfl rfl rfl
    exact ⟨_, rfl, h.tick hne, hwent, rfl, hleads⟩

theorem xTaskIncrementTick (h : Inv R none none 0 s x) (hs : s.uxSchedulerSuspended = 0) :
    ∃ b s' y, s.xTaskIncrementTick = some (b, s') ∧ Inv R none none 0 s' y ∧ Went 1 s x s' y ∧
      s'.xYieldPending = s.xYieldPending ∧ (b = false → s.xYieldPending = false ∧ (s.Leads → s'.Leads)) ∧
      (x.items .pendingReady = [] → y.items .pendingReady = []) := by
  obtain ⟨s₁, hrun₁, hinv₁, hwent₁, hyield₁, hleads₁⟩ := h.countTick
  have hrest : ∃ b s' y, (if s₁.xNextTaskUnblockTime ≤ s₁.xTickCount then
        Sched.unblockTasks (ListImpl.listCurrentListLength s₁.lists s₁.pxDelayedTaskList + 1) s₁ false
      else some (false, s₁)) = some (b, s') ∧ Inv R none none 0 s' y ∧ Went 0 s₁ x s' y ∧
      s'.xYieldPending = s₁.xYieldPending ∧ (b = false → s₁.Leads → s'.Leads) ∧
      (x.items .pendingReady = [] → y.items .pendingReady = []) := by
    split
    · obtain ⟨b, s', y, hrun, hinv, hwent, hyield, hb, hpending⟩ := hinv₁.unblockTasks (Nat.lt_succ_self _) false
      rw [Lists.length_of hinv₁.lists]
      exact ⟨b, s', y, hrun, hinv, hwent, hyield, fun hfalse => (hb hfalse).2, hpending⟩
    · rename_i hlater
      have hlater := UInt32.not_le.mp hlater
      have hinv := hinv₁.relax (v := s₁.xNextTaskUnblockTime)
        (fun i hi => UInt32.lt_of_lt_of_le hlater (hinv₁.unblock i hi)) hinv₁.unblock
      exact ⟨false, s₁, x, rfl, hinv, .of_eq (.refl s₁) (fun _ => rfl) rfl, rfl, fun _ => id, id⟩
  obtain ⟨b, s', y, hrun, hinv, hwent, hyield, hb, hpending⟩ := hrest
  have hcurrent : s'.xYieldPending = s.xYieldPending := hyield.trans hyield₁
  unfold Sched.xTaskIncrementTick
  rw [if_pos hs]
  refine ⟨_, s', y, Option.bind_eq_some_iff.mpr ⟨s₁, hrun₁, Option.map_eq_some_iff.mpr ⟨(b, s'), hrun, rfl⟩⟩, hinv,
    hwent₁.trans hwent, hcurrent, fun hfalse => ?_, hpending⟩
  rw [Bool.or_eq_false_iff, Bool.or_eq_false_iff] at hfalse
  exact ⟨hcurrent ▸ hfalse.2, fun hleads => hb hfalse.1.1 (hleads₁ hleads)⟩

/-! ### The tasks that are woken -/

/-- A waiting task leaves its event list and the list where it waits, and gets its place in a ready list. -/
theorem wake (h : Inv R none none 0 s x) {l : ListId ε} (hin : x.pxContainer (.event t) = some l)
    (hw : waiting t s.history ≠ none) :
    ∃ h₁ h₂ h₃ y, s.listRemoveItem (.event t) = some { s with lists := h₁ } ∧
      listRemoveItem { s with lists := h₁ } (.state t) = some { s with lists := h₂ } ∧
      (log { s with lists := h₂ } (.readied t)).prvAddTaskToReadyList t =
        some (entered { s with lists := h₂ } t (.readied t) h₃) ∧
      Inv R none none 0 (entered { s with lists := h₂ } t (.readied t) h₃) y ∧
      Went 0 s x (entered { s with lists := h₂ } t (.readied t) h₃) y ∧
      y.items .pendingReady = (x.items .pendingReady).erase (.event t) := by
  obtain ⟨h₁, x₁, hrun₁, htook₁, hinv₁⟩ := h.takeEvent hin
  obtain ⟨k, hk, -⟩ := hinv₁.filed t (by simp)
  have hready (p : Fin configMaxPriorities) : k ≠ .ready p := by
    rintro rfl
    exact hw (hinv₁.ready_iff.mp hk).2
  obtain ⟨h₂, x₂, hrun₂, htook₂, hinv₂⟩ := hinv₁.takeState hk hready
  have hevent : x₂.pxContainer (.event t) = none := (htook₂.container_of_ne (by simp)).trans htook₁.container_self
  obtain ⟨h₃, y, hrun₃, hinv₃, hmove, hput⟩ := hinv₂.addReady hevent (.inr ⟨rfl, hw⟩)
  have hturns (p : Fin configMaxPriorities) : x₂.turns (.ready p) = x.turns (.ready p) := by
    refine (htook₂.turns_of_ne fun he => ?_).trans (htook₁.turns_of_ne fun he => ?_)
    · exact hready p (Option.some.inj (hk.symm.trans he))
    · rcases h.event t _ he with he | ⟨e, he⟩ <;> cases he
  have hstart : Went 0 s x { s with lists := h₂ } x₂ := .of_eq ⟨rfl, rfl, rfl, rfl, rfl, rfl, rfl, rfl⟩ hturns rfl
  refine ⟨h₁, h₂, h₃, y, hrun₁, hrun₂, hrun₃, hinv₃, hstart.trans (.entered hmove (.inr rfl)), ?_⟩
  have hstate : Item.state t ∉ x₁.items .pendingReady := by
    intro hi
    obtain ⟨u, he, -⟩ := hinv₁.event_of_mem hi (.inl rfl)
    cases he
  rw [hput.items _ (by simp), htook₂.items, List.erase_of_not_mem hstate, htook₁.items]

/-- The loop of `xTaskResumeAll` over `xPendingReadyList`. -/
theorem readyPending (h : Inv R none none 0 s x) {fuel : Nat} (hfuel : (x.items .pendingReady).length < fuel)
    (moved : Bool) :
    ∃ b s' y, Sched.readyPending fuel s moved = some (b, s') ∧ Inv R none none 0 s' y ∧ Went 0 s x s' y ∧
      y.items .pendingReady = [] ∧
      (s'.xYieldPending = false → s.xYieldPending = false ∧ (s.Leads → s'.Leads)) := by
  induction fuel generalizing s x moved with
  | zero => cases hfuel
  | succ fuel ih =>
    unfold Sched.readyPending
    rw [Lists.length_of h.lists, Lists.head_of h.lists]
    cases hitems : x.items .pendingReady with
    | nil =>
      exact ⟨moved, s, x, rfl, h, .of_eq (.refl s) (fun _ => rfl) rfl, hitems, fun hyield => ⟨hyield, id⟩⟩
    | cons i is =>
      have hi : i ∈ x.items .pendingReady := hitems ▸ List.mem_cons_self
      obtain ⟨t, rfl, hw⟩ := h.event_of_mem hi (.inl rfl)
      obtain ⟨h₁, h₂, h₃, y, hrun₁, hrun₂, hrun₃, hinv, hwent, hpending⟩ := h.wake (x.mem_items.mp hi) hw
      simp only [List.length_cons, Nat.succ_ne_zero, if_false, List.head?_cons, Option.bind_some, Item.owner]
      rw [hrun₁, Option.bind_some, hrun₂, Option.bind_some, hrun₃, Option.bind_some]
      rw [hitems, List.erase_cons_head] at hpending
      have hfuel' : (y.items .pendingReady).length < fuel := by
        rw [hitems, List.length_cons] at hfuel
        rw [hpending]
        exact Nat.lt_of_succ_lt_succ hfuel
      obtain ⟨b, s', z, hrun, hinv', hwent', hempty, hyield⟩ := ih
        (s := { entered { s with lists := h₂ } t (.readied t) h₃ with
          xYieldPending := s.uxPriority s.pxCurrentTCB < s.uxPriority t || s.xYieldPending }) { hinv with } hfuel' true
      have hmarked : Went 0 s x { entered { s with lists := h₂ } t (.readied t) h₃ with
          xYieldPending := s.uxPriority s.pxCurrentTCB < s.uxPriority t || s.xYieldPending } y :=
        ⟨hwent.moves, { hwent.kept with }, hwent.ready⟩
      refine ⟨b, s', z, hrun, hinv', hmarked.trans hwent', hempty, fun hfalse => ?_⟩
      obtain ⟨hsw, hleads⟩ := hyield hfalse
      rw [Bool.or_eq_false_iff, decide_eq_false_iff_not, not_lt] at hsw
      refine ⟨hsw.2, fun hlead => hleads ?_⟩
      exact (Leads.entered (s := { s with lists := h₂ }) hlead (.inr rfl) hsw.1 :
        (entered { s with lists := h₂ } t (.readied t) h₃).Leads)

/-- The loop of `xTaskResumeAll` over the ticks that it owes. -/
theorem unwindTicks (h : Inv R none none 0 s x) (hs : s.uxSchedulerSuspended = 0) (n : Nat) :
    ∃ s' y, Sched.unwindTicks n s = some s' ∧ Inv R none none 0 s' y ∧ Went n s x s' y ∧
      (s'.xYieldPending = false → s.xYieldPending = false ∧ (s.Leads → s'.Leads)) ∧
      (x.items .pendingReady = [] → y.items .pendingReady = []) := by
  induction n generalizing s x with
  | zero => exact ⟨s, x, rfl, h, .of_eq (.refl s) (fun _ => rfl) rfl, fun hyield => ⟨hyield, id⟩, id⟩
  | succ n ih =>
    obtain ⟨b, s₁, y, hrun₁, hinv₁, hwent₁, hyield₁, hb, hpending₁⟩ := h.xTaskIncrementTick hs
    obtain ⟨s', z, hrun, hinv, hwent, hyield, hpending⟩ := ih (s := { s₁ with xYieldPending := b || s₁.xYieldPending })
      { hinv₁ with } (hwent₁.kept.uxSchedulerSuspended.trans hs)
    have hmarked : Went 1 s x { s₁ with xYieldPending := b || s₁.xYieldPending } y :=
      ⟨hwent₁.moves, { hwent₁.kept with }, hwent₁.ready⟩
    refine ⟨s', z, Option.bind_eq_some_iff.mpr ⟨(b, s₁), hrun₁, hrun⟩, hinv, ?_, fun hfalse => ?_,
      fun hnil => hpending (hpending₁ hnil)⟩
    · rw [Nat.add_comm]
      exact hmarked.trans hwent
    · obtain ⟨hsw, hleads⟩ := hyield hfalse
      rw [Bool.or_eq_false_iff] at hsw
      obtain ⟨hyield, hlead⟩ := hb hsw.1
      exact ⟨hyield, fun h => hleads (hlead h)⟩

/-- `xTaskResumeAll`, when it lets the scheduler go on. -/
theorem xTaskResumeAll (h : Inv R none none 0 s x) (hs : s.uxSchedulerSuspended = 1) :
    ∃ s' y, s.xTaskResumeAll =
        some (s'.xYieldPending, { s' with xPendedTicks := 0, pendSV := s'.xYieldPending || s'.pendSV }) ∧
      Inv R none none 0 s' y ∧ Went s.xPendedTicks.toNat { s with uxSchedulerSuspended := 0 } x s' y ∧
      y.items .pendingReady = [] ∧ (s'.xYieldPending = false → s.xYieldPending = false ∧ (s.Leads → s'.Leads)) := by
  obtain ⟨moved, s₁, x₁, hrun₁, hinv₁, hwent₁, hempty₁, hyield₁⟩ :=
    readyPending (s := { s with uxSchedulerSuspended := 0 }) { h with } (Nat.lt_succ_self _) false
  obtain ⟨s₂, hrun₂, hinv₂, hwent₂, hyield₂, hleads₂⟩ : ∃ s₂,
      (if moved then s₁.prvResetNextTaskUnblockTime else some s₁) = some s₂ ∧
      Inv R none none 0 s₂ x₁ ∧ Went 0 s₁ x₁ s₂ x₁ ∧ s₂.xYieldPending = s₁.xYieldPending ∧ (s₁.Leads → s₂.Leads) := by
    split
    · obtain ⟨v, hrun, hinv⟩ := prvResetNextTaskUnblockTime (s := s₁) { hinv₁ with unblock := fun _ _ => UInt32.zero_le }
      exact ⟨_, hrun, hinv, .of_eq ⟨rfl, rfl, rfl, rfl, rfl, rfl, rfl, rfl⟩ (fun _ => rfl) rfl, rfl, id⟩
    · exact ⟨s₁, rfl, hinv₁, .of_eq (.refl s₁) (fun _ => rfl) rfl, rfl, id⟩
  have hwent := hwent₁.trans hwent₂
  obtain ⟨s', y, hrun, hinv, hwent', hyield, hempty⟩ :=
    hinv₂.unwindTicks hwent.kept.uxSchedulerSuspended s₂.xPendedTicks.toNat
  refine ⟨s', y, ?_, hinv, ?_, hempty hempty₁, fun hfalse => ?_⟩
  · unfold Sched.xTaskResumeAll
    simp only [hs, Nat.one_ne_zero, if_false, Nat.sub_self, if_true]
    refine Option.bind_eq_some_iff.mpr ⟨(moved, s₁), ?_, Option.bind_eq_some_iff.mpr ⟨s₂, hrun₂,
      Option.map_eq_some_iff.mpr ⟨s', hrun, ?_⟩⟩⟩
    · rw [Lists.length_of h.lists]
      exact hrun₁
    · cases hyield : s'.xYieldPending <;> rfl
  · have hpended : s₂.xPendedTicks = s.xPendedTicks := hwent.kept.xPendedTicks
    simpa only [Nat.add_zero, Nat.zero_add, hpended] using hwent.trans hwent'
  · obtain ⟨hsw, hleads⟩ := hyield hfalse
    obtain ⟨hsw, hleads'⟩ := hyield₁ (hyield₂ ▸ hsw)
    exact ⟨hsw, fun hlead => hleads (hleads₂ (hleads' hlead))⟩

/-- `xTaskRemoveFromEventList`, for a task that waits. -/
theorem xTaskRemoveFromEventList (h : Inv R none none 0 s x) {e : ε} (hne : x.items (.event e) ≠ []) :
    ∃ b s' y, s.xTaskRemoveFromEventList e = some (b, s') ∧ Inv R none none 0 s' y ∧ Went 0 s x s' y ∧
      (s.uxSchedulerSuspended = 0 → x.items .pendingReady = [] → y.items .pendingReady = []) ∧
      (b = false → s'.xYieldPending = s.xYieldPending ∧ (s.Leads → s'.Leads)) ∧ (b = true → s'.xYieldPending = true) := by
  obtain ⟨i, is, hitems⟩ := List.exists_cons_of_ne_nil hne
  have hi : i ∈ x.items (.event e) := hitems ▸ List.mem_cons_self
  obtain ⟨t, rfl, hw⟩ := h.event_of_mem hi (.inr ⟨e, rfl⟩)
  unfold Sched.xTaskRemoveFromEventList
  rw [Lists.head_of h.lists, hitems]
  simp only [List.head?_cons, Option.bind_some, Item.owner]
  have hin := x.mem_items.mp hi
  -- What is compared at the end makes the task that runs give way.
  have hgive {s₁ : Sched σ ι ε} {y : Lists (Item ι) (ListId ε)} (hinv : Inv R none none 0 s₁ y) (hwent : Went 0 s x s₁ y)
      (hpending : s.uxSchedulerSuspended = 0 → x.items .pendingReady = [] → y.items .pendingReady = [])
      (hyield : s₁.xYieldPending = s.xYieldPending)
      (hleads : s.uxPriority t ≤ s.uxPriority s.pxCurrentTCB → s.Leads → s₁.Leads) :
      ∃ b s' y, some (if s₁.uxPriority s₁.pxCurrentTCB < s₁.uxPriority t then (true, { s₁ with xYieldPending := true })
        else (false, s₁)) = some (b, s') ∧ Inv R none none 0 s' y ∧ Went 0 s x s' y ∧
      (s.uxSchedulerSuspended = 0 → x.items .pendingReady = [] → y.items .pendingReady = []) ∧
      (b = false → s'.xYieldPending = s.xYieldPending ∧ (s.Leads → s'.Leads)) ∧ (b = true → s'.xYieldPending = true) := by
    split
    · exact ⟨true, _, y, rfl, { hinv with }, ⟨hwent.moves, { hwent.kept with }, hwent.ready⟩, hpending, by simp,
        fun _ => rfl⟩
    · rename_i hle
      rw [hwent.kept.uxPriority, hwent.kept.pxCurrentTCB, not_lt] at hle
      exact ⟨false, s₁, y, rfl, hinv, hwent, hpending, fun _ => ⟨hyield, hleads hle⟩, by simp⟩
  by_cases hs : s.uxSchedulerSuspended = 0
  · obtain ⟨h₁, h₂, h₃, y, hrun₁, hrun₂, hrun₃, hinv, hwent, hpending⟩ := h.wake hin hw
    rw [hrun₁, Option.bind_some, if_pos hs, hrun₂, Option.bind_some, hrun₃, Option.map_some]
    refine hgive hinv hwent (fun _ hnil => ?_) rfl fun hle hlead => ?_
    · rw [hpending, hnil]
      rfl
    · exact Leads.entered (s := { s with lists := h₂ }) hlead (.inr rfl) hle
  · obtain ⟨h₁, x₁, hrun₁, htook, hinv₁⟩ := h.takeEvent hin
    obtain ⟨h₂, y, hrun₂, hr, hput, -⟩ := Lists.putEnd_of hinv₁.lists htook.container_self .pendingReady
    have hrun₂ : ListImpl.vListInsertEnd h₁ .pendingReady (Item.event t) = some h₂ := hrun₂
    rw [hrun₁, Option.bind_some, if_neg hs, hrun₂, Option.map_some, Option.map_some]
    refine hgive (hinv₁.putEvent hput hr (.inl rfl) (.inl hw))
      (.of_eq ⟨rfl, rfl, rfl, rfl, rfl, rfl, rfl, rfl⟩ (fun p => ?_) rfl) (fun h0 => absurd h0 hs) rfl fun _ => id
    refine (hput.turns _ (by simp)).trans (htook.turns_of_ne fun he => ?_)
    rcases h.event t _ he with he | ⟨e, he⟩ <;> cases he

/-! ### The task that waits for an event -/

/-- The running task is put into an event list, and then waits. -/
theorem placed (h : Inv R none none 0 s x) (hready : waiting s.pxCurrentTCB s.history = none) {e : ε} {h' : σ}
    (hput : x.Put (.event s.pxCurrentTCB) (.event e) y) (hr : R h' y) {n : UInt32} (hn : n ≠ 0) (indefinitely : Bool) :
    ∃ s' z, Sched.prvAddCurrentTaskToDelayedList { s with lists := h' } n indefinitely = some s' ∧ Blocks R s x s' z := by
  have hinv : Inv R none (some s.pxCurrentTCB) 0 { s with lists := h' } y := h.putEvent hput hr (.inr ⟨e, rfl⟩) (.inr rfl)
  obtain ⟨s', z, hrun, hblocks⟩ := Inv.prvAddCurrentTaskToDelayedList (s := { s with lists := h' }) hinv
    (fun u hu => (Option.some.inj hu).symm) hready hn indefinitely
  have hagenda : agenda { s with lists := h' } y = s.agenda x := by
    unfold agenda
    simp only [hput.turns _ (show ListId.ready _ ≠ .event e by simp)]
  exact ⟨s', z, hrun, hblocks.inv, hagenda ▸ hblocks.move, { hblocks.kept with }, hblocks.xYieldPending, hblocks.waits,
    hblocks.others⟩

theorem vTaskPlaceOnEventList (h : Inv R none none 0 s x) (hready : waiting s.pxCurrentTCB s.history = none) (e : ε)
    {n : UInt32} (hn : n ≠ 0) : ∃ s' z, s.vTaskPlaceOnEventList e n = some s' ∧ Blocks R s x s' z := by
  obtain ⟨h', y, hrun, hr, hput, -⟩ := Lists.put_of h.lists (h.event_free hready) (.event e)
  obtain ⟨s', z, hrun', hblocks⟩ := h.placed hready hput hr hn true
  exact ⟨s', z, Option.bind_eq_some_iff.mpr ⟨h', hrun, hrun'⟩, hblocks⟩

theorem vTaskPlaceOnEventListRestricted (h : Inv R none none 0 s x) (hready : waiting s.pxCurrentTCB s.history = none)
    (e : ε) {n : UInt32} {indefinitely : Bool} (hn : n ≠ 0 ∨ indefinitely = true) :
    ∃ s' z, s.vTaskPlaceOnEventListRestricted e n indefinitely = some s' ∧ Blocks R s x s' z := by
  obtain ⟨h', y, hrun, hr, hput, -⟩ := Lists.putEnd_of h.lists (h.event_free hready) (.event e)
  have hn : (if indefinitely then maxDelay else n) ≠ 0 := by
    split
    · decide
    · rename_i hfalse
      exact hn.resolve_right hfalse
  obtain ⟨s', z, hrun', hblocks⟩ := h.placed hready hput hr hn indefinitely
  exact ⟨s', z, Option.bind_eq_some_iff.mpr ⟨h', hrun, hrun'⟩, hblocks⟩

end Inv

end Sched

end SpeakingClock.Kernel
