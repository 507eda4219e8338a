import SpeakingClock.Theorems.Kernel.Delays
import SpeakingClock.Lib.Run

/-! The scheduler over whole runs: whatever tasks and interrupts do, it is never stuck, the task that runs is one
    of the highest priority unless a switch is due, delays are exact, and tasks of one priority take turns. -/

namespace SpeakingClock.Kernel
open Function (update)
open Turns (TaskEvent waiting Move Moves)

namespace Sched
variable {σ ι ε : Type} [DecidableEq ι] {R : σ → Lists (Item ι) (ListId ε) → Prop} {idle : ι} {s s' : Sched σ ι ε}
  {x y : Lists (Item ι) (ListId ε)} {t u : ι}

/-- What holds between the steps: the lists, and where the tasks are. Only the running task holds the scheduler,
    and another one is to run only if a switch is due. -/
structure Good (R : σ → Lists (Item ι) (ListId ε) → Prop) (idle : ι) (s : Sched σ ι ε)
    (x : Lists (Item ι) (ListId ε)) : Prop where
  inv : Inv R none none 0 s x
  idle : waiting idle s.history = none
  suspended : s.uxSchedulerSuspended =
    if s.control s.pxCurrentTCB = .locked ∨ s.control s.pxCurrentTCB = .blocked then 1 else 0
  others : ∀ t ≠ s.pxCurrentTCB, s.control t = .running ∨ s.control t = .resumed
  pending : s.uxSchedulerSuspended = 0 → x.items .pendingReady = [] ∧ s.xPendedTicks = 0
  locked : s.control s.pxCurrentTCB = .locked → waiting s.pxCurrentTCB s.history = none
  running : s.control s.pxCurrentTCB = .running → s.pendSV = true ∨ waiting s.pxCurrentTCB s.history = none
  leads : s.pendSV = true ∨ s.xYieldPending = true ∨ s.control s.pxCurrentTCB = .blocked ∨
    s.control s.pxCurrentTCB = .resumed ∨ s.Leads
  ticks : s.history.count .tick + s.xPendedTicks.toNat = s.history.count .sysTick

namespace Good

theorem free (h : Good R idle s x) (hc : s.control s.pxCurrentTCB = .running ∨ s.control s.pxCurrentTCB = .resumed) :
    s.uxSchedulerSuspended = 0 := by
  rw [h.suspended, if_neg]
  rcases hc with hc | hc <;> simp [hc]

theorem held (h : Good R idle s x) (hc : s.control s.pxCurrentTCB = .locked ∨ s.control s.pxCurrentTCB = .blocked) :
    s.uxSchedulerSuspended = 1 := by
  rw [h.suspended, if_pos hc]

/-- The running task goes on where it is, or a switch is due. -/
theorem keep (h : Good R idle s x) (hinv : Inv R none none 0 s' y) (hcontrol : s'.control = s.control)
    (hcurrent : s'.pxCurrentTCB = s.pxCurrentTCB) (hsuspended : s'.uxSchedulerSuspended = s.uxSchedulerSuspended)
    (hready : ∀ t, waiting t s.history = none → waiting t s'.history = none)
    (hpending : s.uxSchedulerSuspended = 0 → y.items .pendingReady = [] ∧ s'.xPendedTicks = 0)
    (hpendSV : s.pendSV = true → s'.pendSV = true)
    (hleads : s.xYieldPending = true ∨ s.Leads → s'.pendSV = true ∨ s'.xYieldPending = true ∨ s'.Leads)
    (hticks : s'.history.count .tick + s'.xPendedTicks.toNat = s'.history.count .sysTick) : Good R idle s' y where
  inv := hinv
  idle := hready idle h.idle
  suspended := by
    rw [hsuspended, hcontrol, hcurrent]
    exact h.suspended
  others t ht := by
    rw [hcontrol]
    exact h.others t (hcurrent ▸ ht)
  pending hs := hpending (hsuspended ▸ hs)
  locked hc := by
    rw [hcurrent]
    exact hready _ (h.locked (by rwa [hcontrol, hcurrent] at hc))
  running hc := by
    rw [hcontrol, hcurrent] at hc
    rw [hcurrent]
    exact (h.running hc).imp hpendSV (hready _)
  leads := by
    rw [hcontrol, hcurrent]
    rcases h.leads with hp | hy | hc | hc | hl
    · exact .inl (hpendSV hp)
    · have := hleads (.inl hy)
      tauto
    · exact .inr (.inr (.inl hc))
    · exact .inr (.inr (.inr (.inl hc)))
    · have := hleads (.inr hl)
      tauto
  ticks := hticks

/-- A task is woken, and what is then marked lets a switch be due. -/
theorem woken (h : Good R idle s x) {s₁ : Sched σ ι ε} {b p z : Bool} (hinv : Inv R none none 0 s₁ y)
    (hwent : Went 0 s x s₁ y)
    (hpending : s.uxSchedulerSuspended = 0 → x.items .pendingReady = [] → y.items .pendingReady = [])
    (hfalse : b = false → s₁.xYieldPending = s.xYieldPending ∧ (s.Leads → s₁.Leads))
    (htrue : b = true → s₁.xYieldPending = true) :
    Good R idle { s₁ with pendSV := p || s₁.pendSV, xYieldPending := z || s₁.xYieldPending } y := by
  refine h.keep { hinv with } hwent.kept.control hwent.kept.pxCurrentTCB hwent.kept.uxSchedulerSuspended hwent.ready
    (fun hs => ?_) (fun hp => ?_) (fun hdue => ?_) ?_
  · obtain ⟨hnil, hpended⟩ := h.pending hs
    exact ⟨hpending hs hnil, hwent.kept.xPendedTicks.trans hpended⟩
  · have hp : s₁.pendSV = true := hwent.kept.pendSV.trans hp
    simp [hp]
  · right
    cases b with
    | true => exact .inl (by simp [htrue rfl])
    | false =>
      obtain ⟨hyield, hleads⟩ := hfalse rfl
      exact hdue.imp (fun hy => by simp [hyield, hy]) hleads
  · change s₁.history.count .tick + s₁.xPendedTicks.toNat = s₁.history.count .sysTick
    rw [hwent.kept.ticks, hwent.kept.sysTicks, hwent.kept.xPendedTicks]
    exact h.ticks

/-- The running task, which holds the scheduler, now waits. -/
theorem blocks (h : Good R idle s x) (hc : s.control s.pxCurrentTCB = .locked) (hidle : s.pxCurrentTCB ≠ idle)
    (hblocks : Blocks R s x s' y) : Good R idle (s'.goto .blocked) y := by
  have hcurrent : s'.pxCurrentTCB = s.pxCurrentTCB := hblocks.kept.pxCurrentTCB
  have hheld : s'.uxSchedulerSuspended = 1 := hblocks.kept.uxSchedulerSuspended.trans (h.held (.inl hc))
  exact {
    inv := { hblocks.inv with }
    idle := (hblocks.others idle hidle.symm).trans h.idle
    suspended := by simp [goto, hheld]
    others := fun t ht => by
      have ht : t ≠ s'.pxCurrentTCB := ht
      simpa [goto, ht, hblocks.kept.control] using h.others t (hcurrent ▸ ht)
    pending := fun hs => by simp [goto, hheld] at hs
    locked := fun hc => by simp [goto] at hc
    running := fun hc => by simp [goto] at hc
    leads := .inr (.inr (.inl (by simp [goto])))
    ticks := by
      have := h.ticks
      simpa [goto, hblocks.kept.ticks, hblocks.kept.sysTicks, hblocks.kept.xPendedTicks] using this }

end Good

section
variable [ListImpl σ (Item ι) (ListId ε)]

/-- A step that is possible, keeps what holds, and moves the agenda on. -/
def Steps (R : σ → Lists (Item ι) (ListId ε) → Prop) (idle : ι) (s : Sched σ ι ε) (x : Lists (Item ι) (ListId ε))
    (a : SchedAction ε) : Prop :=
  ∃ s' y, s.step a = some s' ∧ Good R idle s' y ∧ Moves s.uxPriority (s.agenda x) (s'.agenda y) ∧
    s'.uxPriority = s.uxPriority

namespace Good

/-! ### Steps that leave the lists as they are -/

/-- PendSV, while the scheduler is suspended: the switch is still due. -/
theorem pendSV_held (h : Good R idle s x) (hs : s.uxSchedulerSuspended ≠ 0) : Steps R idle s x .pendSV := by
  refine ⟨{ s with pendSV := false, xYieldPending := true }, x, ?_, ?_, .refl _, rfl⟩
  · change vTaskSwitchContext { s with pendSV := false } = _
    unfold vTaskSwitchContext
    rw [if_pos hs]
  · refine { h with inv := { h.inv with }, running := fun hc => absurd (h.free (.inl hc)) hs, leads := .inr (.inl rfl) }

theorem suspendAll (h : Good R idle s x) (hp : s.pendSV = false) (hc : s.control s.pxCurrentTCB = .running) :
    Steps R idle s x .suspendAll := by
  have hready := (h.running hc).resolve_left (by simp [hp])
  refine ⟨_, x, rfl, ?_, .refl _, rfl⟩
  exact {
    inv := { h.inv with }
    idle := h.idle
    suspended := by simp [goto, vTaskSuspendAll, h.free (.inl hc)]
    others := fun t ht => by
      have ht : t ≠ s.pxCurrentTCB := ht
      simpa [goto, vTaskSuspendAll, ht] using h.others t ht
    pending := fun hs => by simp [goto, vTaskSuspendAll] at hs
    locked := fun _ => hready
    running := fun hc => by simp [goto, vTaskSuspendAll] at hc
    leads := by
      rcases h.leads with hl | hl | hl | hl | hl
      · exact .inl hl
      · exact .inr (.inl hl)
      · simp [hc] at hl
      · simp [hc] at hl
      · exact .inr (.inr (.inr (.inr hl)))
    ticks := h.ticks }

theorem yield (h : Good R idle s x) (hc : s.control s.pxCurrentTCB = .running ∨ s.control s.pxCurrentTCB = .resumed) :
    Steps R idle s x .yield := by
  refine ⟨_, x, rfl, ?_, .refl _, rfl⟩
  exact {
    inv := { h.inv with }
    idle := h.idle
    suspended := by simp [goto, h.free hc]
    others := fun t ht => by
      have ht : t ≠ s.pxCurrentTCB := ht
      simpa [goto, ht] using h.others t ht
    pending := h.pending
    locked := fun hc => by simp [goto] at hc
    running := fun _ => .inl rfl
    leads := .inl rfl
    ticks := h.ticks }

variable [DecidableEq ε] [Simulates R]

/-! ### Interrupts -/

theorem tick (h : Good R idle s x) (hok : s.xPendedTicks ≠ maxDelay) : Steps R idle s x .tick := by
  have hinv := h.inv.sysTick
  have hclock : Moves s.uxPriority (s.agenda x) ((s.log .sysTick).agenda x) := Move.clock.moves
  have hready (t : ι) (ht : waiting t s.history = none) : waiting t (s.log .sysTick).history = none := by
    rwa [log, Turns.waiting_sysTick]
  have htick : (s.log .sysTick).history.count .tick = s.history.count .tick := by simp [log]
  have hsysTick : (s.log .sysTick).history.count .sysTick = s.history.count .sysTick + 1 := by simp [log]
  have hticks := h.ticks
  by_cases hs : s.uxSchedulerSuspended = 0
  · obtain ⟨b, s', y, hrun, hinv', hwent, hyield, hb, hpending⟩ := hinv.xTaskIncrementTick hs
    obtain ⟨hnil, hpended⟩ := h.pending hs
    refine ⟨{ s' with pendSV := b || s'.pendSV }, y, Option.map_eq_some_iff.mpr ⟨(b, s'), hrun, rfl⟩, ?_,
      hclock.trans hwent.moves, hwent.kept.uxPriority⟩
    refine h.keep { hinv' with } hwent.kept.control hwent.kept.pxCurrentTCB hwent.kept.uxSchedulerSuspended
      (fun t ht => hwent.ready t (hready t ht)) (fun _ => ⟨hpending hnil, hwent.kept.xPendedTicks.trans hpended⟩)
      (fun hp => ?_) (fun hdue => ?_) ?_
    · have hp : s'.pendSV = true := hwent.kept.pendSV.trans hp
      simp [hp]
    · cases b with
      | true => exact .inl rfl
      | false =>
        obtain ⟨hfalse, hleads⟩ := hb rfl
        rcases hdue with hy | hl
        · exact absurd (hfalse.symm.trans hy) (by decide)
        · refine .inr (.inr (hleads fun t ht => hl t ?_))
          rwa [log, Turns.waiting_sysTick] at ht
    · have hpended' : s'.xPendedTicks = s.xPendedTicks := hwent.kept.xPendedTicks
      change s'.history.count .tick + s'.xPendedTicks.toNat = s'.history.count .sysTick
      rw [hwent.kept.ticks, hwent.kept.sysTicks, hpended', htick, hsysTick]
      omega
  · refine ⟨{ s.log .sysTick with xPendedTicks := s.xPendedTicks + 1 }, x,
      Option.map_eq_some_iff.mpr ⟨_, xTaskIncrementTick_suspended (s := s.log .sysTick) hs, rfl⟩, ?_, hclock, rfl⟩
    refine h.keep { hinv with } rfl rfl rfl hready (fun h0 => absurd h0 hs) id (fun hdue => ?_) ?_
    · refine .inr (hdue.imp_right fun hl t ht => hl t ?_)
      simpa [log] using ht
    · have hlt := s.xPendedTicks.toNat_lt
      have hmax : s.xPendedTicks.toNat ≠ 2 ^ 32 - 1 := fun he => hok (UInt32.toNat_inj.mp he)
      have hadd : (s.xPendedTicks + 1).toNat = (s.xPendedTicks.toNat + 1) % 2 ^ 32 := UInt32.toNat_add ..
      change (s.log .sysTick).history.count .tick + (s.xPendedTicks + 1).toNat = (s.log .sysTick).history.count .sysTick
      rw [htick, hsysTick]
      omega

/-- PendSV chooses a task. -/
theorem pendSV_free (h : Good R idle s x) (hs : s.uxSchedulerSuspended = 0) : Steps R idle s x .pendSV := by
  have hcontrol (t : ι) : s.control t = .running ∨ s.control t = .resumed := by
    by_cases ht : t = s.pxCurrentTCB
    · subst ht
      have := h.suspended
      rw [hs] at this
      cases hc : s.control s.pxCurrentTCB <;> simp [hc] at this ⊢
    · exact h.others t ht
  obtain ⟨h', t, y, hrun, hinv, hmove, ht, hhighest, hitems⟩ :=
    Inv.taskSelectHighestPriorityTask (s := { s with pendSV := false, xYieldPending := false }) { h.inv with } h.idle
  refine ⟨_, y, ?_, ?_, hmove.moves, rfl⟩
  · change vTaskSwitchContext { s with pendSV := false } = _
    unfold vTaskSwitchContext
    rw [if_neg (by simpa using hs)]
    exact hrun
  · exact {
      inv := hinv
      idle := by rw [Turns.waiting_chosen]; exact h.idle
      suspended := by
        refine hs.trans (if_neg ?_).symm
        rcases hcontrol t with hc | hc <;> simp [hc]
      others := fun u _ => hcontrol u
      pending := fun _ => ⟨hitems ▸ (h.pending hs).1, (h.pending hs).2⟩
      locked := fun hc => by rw [Turns.waiting_chosen]; exact ht
      running := fun _ => .inr (by rw [Turns.waiting_chosen]; exact ht)
      leads := .inr (.inr (.inr (.inr fun u hu => hhighest u (by rwa [Turns.waiting_chosen] at hu))))
      ticks := by
        have := h.ticks
        simpa using this }

theorem wakeFromISR (h : Good R idle s x) {e : ε} (hne : x.items (.event e) ≠ []) (b : Bool) :
    Steps R idle s x (.wakeFromISR e b) := by
  obtain ⟨woken, s₁, y, hrun, hinv, hwent, hpending, hfalse, htrue⟩ := h.inv.xTaskRemoveFromEventList hne
  refine ⟨{ s₁ with pendSV := woken && b || s₁.pendSV }, y, Option.map_eq_some_iff.mpr ⟨(woken, s₁), hrun, rfl⟩, ?_,
    hwent.moves, hwent.kept.uxPriority⟩
  exact h.woken (p := woken && b) (z := false) hinv hwent hpending hfalse htrue

/-! ### The running task -/

theorem wake (h : Good R idle s x) {e : ε} (hne : x.items (.event e) ≠ []) : Steps R idle s x (.wake e) := by
  obtain ⟨woken, s₁, y, hrun, hinv, hwent, hpending, hfalse, htrue⟩ := h.inv.xTaskRemoveFromEventList hne
  refine ⟨_, y, Option.map_eq_some_iff.mpr ⟨(woken, s₁), hrun, rfl⟩, ?_⟩
  dsimp only
  split
  · exact ⟨h.woken (p := woken) (z := false) hinv hwent hpending hfalse htrue, hwent.moves, hwent.kept.uxPriority⟩
  · exact ⟨h.woken (p := false) (z := woken) hinv hwent hpending hfalse htrue, hwent.moves, hwent.kept.uxPriority⟩

theorem resumeAll (h : Good R idle s x) (hp : s.pendSV = false)
    (hc : s.control s.pxCurrentTCB = .locked ∨ s.control s.pxCurrentTCB = .blocked) : Steps R idle s x .resumeAll := by
  obtain ⟨s₁, y, hrun, hinv, hwent, hempty, hyield⟩ := h.inv.xTaskResumeAll (h.held hc)
  have hcurrent : s₁.pxCurrentTCB = s.pxCurrentTCB := hwent.kept.pxCurrentTCB
  have hcontrol : s₁.control = s.control := hwent.kept.control
  have hsuspended : s₁.uxSchedulerSuspended = 0 := hwent.kept.uxSchedulerSuspended
  refine ⟨_, y, Option.map_eq_some_iff.mpr ⟨_, hrun, rfl⟩, ?_, hwent.moves, hwent.kept.uxPriority⟩
  refine ⟨{ hinv with }, hwent.ready idle h.idle, ?_, fun t ht => ?_, fun _ => ⟨hempty, rfl⟩, fun hl => ?_, fun hr => ?_,
    ?_, ?_⟩
  · simp only [goto, Function.update_self]
    rw [hsuspended, if_neg]
    split <;> simp
  · have ht : t ≠ s₁.pxCurrentTCB := ht
    simpa [goto, ht, hcontrol] using h.others t (hcurrent ▸ ht)
  · simp only [goto, Function.update_self] at hl
    split at hl <;> cases hl
  · cases hy : s₁.xYieldPending with
    | true => exact .inl (by simp [goto])
    | false =>
      -- It did not block: it would be about to yield.
      rcases hc with hc | hc
      · right
        change waiting s₁.pxCurrentTCB s₁.history = none
        rw [hcurrent]
        exact hwent.ready _ (h.locked hc)
      · simp [goto, hc, hy] at hr
  · cases hy : s₁.xYieldPending with
    | true => exact .inl (by simp [goto])
    | false =>
      obtain ⟨hnot, hleads⟩ := hyield hy
      rcases hc with hc | hc
      · refine .inr (.inr (.inr (.inr (hleads ?_))))
        have := h.leads
        simpa [hp, hnot, hc] using this
      · exact .inr (.inr (.inr (.inl (by simp [goto, hc]))))
  · have hticks := h.ticks
    have h₁ := hwent.kept.ticks
    have h₂ := hwent.kept.sysTicks
    change s₁.history.count .tick + 0 = s₁.history.count .sysTick
    rw [h₁, h₂]
    exact hticks

/-! ### Runs -/

/-- Whatever may happen is possible, keeps what holds, and moves the agenda on. -/
theorem steps (h : Good R idle s x) {a : SchedAction ε} (hok : Allows idle s a) : Steps R idle s x a := by
  have hevent {e : ε} (hlen : ListImpl.listCurrentListLength s.lists (.event e) ≠ 0) : x.items (.event e) ≠ [] := by
    rw [Lists.length_of h.inv.lists] at hlen
    exact List.ne_nil_of_length_pos (Nat.pos_of_ne_zero hlen)
  have hblocked {s' : Sched σ ι ε} {y : Lists (Item ι) (ListId ε)} {f : Option (Sched σ ι ε)} (hrun : f = some s')
      (hblocks : Blocks R s x s' y) (hc : s.control s.pxCurrentTCB = .locked) (hidle : s.pxCurrentTCB ≠ idle)
      (hstep : s.step a = f.map (·.goto .blocked)) : Steps R idle s x a :=
    ⟨s'.goto .blocked, y, by rw [hstep, hrun]; rfl, h.blocks hc hidle hblocks, hblocks.move.moves, hblocks.kept.uxPriority⟩
  cases a with
  | tick => exact h.tick hok
  | pendSV =>
    by_cases hs : s.uxSchedulerSuspended = 0
    · exact h.pendSV_free hs
    · exact h.pendSV_held hs
  | wakeFromISR e b => exact h.wakeFromISR (hevent hok) b
  | wake e =>
    obtain ⟨-, -, hlen⟩ := hok
    exact h.wake (hevent hlen)
  | suspendAll =>
    obtain ⟨hp, hc⟩ := hok
    exact h.suspendAll (by simpa using hp) hc
  | delay n =>
    obtain ⟨-, hc, hidle, hn⟩ := hok
    obtain ⟨s', y, hrun, hblocks⟩ := h.inv.prvAddCurrentTaskToDelayedList (by simp) (h.locked hc) hn false
    exact hblocked hrun hblocks hc hidle rfl
  | place e n =>
    obtain ⟨-, hc, hidle, hn⟩ := hok
    obtain ⟨s', y, hrun, hblocks⟩ := h.inv.vTaskPlaceOnEventList (h.locked hc) e hn
    exact hblocked hrun hblocks hc hidle rfl
  | placeRestricted e n indefinitely =>
    obtain ⟨-, hc, hidle, hn⟩ := hok
    obtain ⟨s', y, hrun, hblocks⟩ := h.inv.vTaskPlaceOnEventListRestricted (h.locked hc) e hn
    exact hblocked hrun hblocks hc hidle rfl
  | resumeAll =>
    obtain ⟨hp, hc⟩ := hok
    exact h.resumeAll (by simpa using hp) hc
  | yield =>
    obtain ⟨-, hc⟩ := hok
    exact h.yield hc

/-- What holds at the start holds in every state of a run, which moves the agenda on. -/
theorem reaches {s₀ : Sched σ ι ε} {x₀ : Lists (Item ι) (ListId ε)} (h : Good R idle s₀ x₀)
    (hr : Run.Reaches step (Allows idle) s₀ s) :
    ∃ x, Good R idle s x ∧ Moves s₀.uxPriority (s₀.agenda x₀) (s.agenda x) ∧ s.uxPriority = s₀.uxPriority := by
  induction hr with
  | refl => exact ⟨x₀, h, .refl _, rfl⟩
  | tail _ hok hs ih =>
    obtain ⟨x, hgood, hmoves, hprio⟩ := ih
    obtain ⟨s', y, hs', hgood', hmoves', hprio'⟩ := hgood.steps hok
    obtain rfl := Option.some.inj (hs.symm.trans hs')
    exact ⟨y, hgood', hmoves.trans (hprio ▸ hmoves'), hprio'.trans hprio⟩

end Good

end

/-! ### The start -/

/-- The tasks `us` are created, and the last of the highest priority among them is to run. -/
structure Created (R : σ → Lists (Item ι) (ListId ε) → Prop) (prio : ι → Fin configMaxPriorities) (us : List ι)
    (s : Sched σ ι ε) (x : Lists (Item ι) (ListId ε)) : Prop where
  lists : R s.lists x
  rest : ∃ lists t b, s = { init lists prio t with uxTopReadyPriority := b }
  state : ∀ t, x.pxContainer (.state t) = if t ∈ us then some (.ready (prio t)) else none
  event : ∀ t, x.pxContainer (.event t) = none
  top : ∀ i, s.uxTopReadyPriority.getLsbD i = true ↔ ∃ h : i < configMaxPriorities, x.items (.ready ⟨i, h⟩) ≠ []
  leads : ∀ t ∈ us, prio t ≤ prio s.pxCurrentTCB

namespace Created
variable {prio : ι → Fin configMaxPriorities} {us ts : List ι}

theorem nobody {v : Item ι → UInt32} {lists : σ} (hr : R lists (Lists.initialised v)) (t : ι) :
    Created R prio [] (init lists prio t) (Lists.initialised v) where
  lists := hr
  rest := ⟨lists, t, 0, rfl⟩
  state _ := rfl
  event _ := rfl
  top := by simp [init, Lists.initialised]
  leads _ hu := by cases hu

/-- When all tasks are created, the scheduler can start. -/
theorem good (h : Created R prio us s x) (hall : ∀ t, t ∈ us) (idle : ι) : Good R idle s x := by
  obtain ⟨lists, u, b, rfl⟩ := h.rest
  have hstate (t : ι) : x.pxContainer (.state t) = some (.ready (prio t)) := by rw [h.state, if_pos (hall t)]
  have hnil {l : ListId ε} (hl : ∀ p, l ≠ .ready p) : x.items l = [] := by
    rw [List.eq_nil_iff_forall_not_mem]
    intro i hi
    rw [x.mem_items] at hi
    cases i with
    | state t => exact hl _ (Option.some.inj (hi.symm.trans (hstate t)))
    | event t =>
      rw [h.event] at hi
      cases hi
  have hsorted {l : ListId ε} (hl : ∀ p, l ≠ .ready p) : x.Sorted l := by
    unfold Lists.Sorted
    rw [hnil hl]
    exact .nil
  exact {
    inv := {
      lists := h.lists
      held := fun _ ht => by cases ht
      filed := fun t _ => ⟨_, hstate t, rfl⟩
      event := fun t l hl => by rw [h.event] at hl; cases hl
      waits := fun t ht => absurd (h.event t) ht
      delayed := .inl ⟨rfl, rfl⟩
      ticks := rfl
      top := h.top
      sorted := ⟨hsorted (by simp), hsorted (by simp)⟩
      unblock := fun i hi => by
        have hi : i ∈ x.items .delayed1 := hi
        rw [hnil (by simp)] at hi
        cases hi }
    idle := rfl
    suspended := rfl
    others := fun _ _ => .inl rfl
    pending := fun _ => ⟨hnil (by simp), rfl⟩
    locked := fun _ => rfl
    running := fun _ => .inr rfl
    leads := .inr (.inr (.inr (.inr fun t _ => h.leads t (hall t))))
    ticks := rfl }

/-- All tasks have their turns. -/
theorem agenda (h : Created R prio us s x) (hall : ∀ t, t ∈ us) : (s.agenda x).Inv prio := by
  obtain ⟨lists, u, b, rfl⟩ := h.rest
  have hstate {p : Fin configMaxPriorities} {i : Item ι} (hi : i ∈ x.turns (.ready p)) :
      ∃ t, i = .state t ∧ p = prio t := by
    rw [x.mem_turns, x.mem_items] at hi
    cases i with
    | state t =>
      rw [h.state, if_pos (hall t)] at hi
      cases hi
      exact ⟨t, rfl, rfl⟩
    | event t =>
      rw [h.event] at hi
      cases hi
  refine Turns.Agenda.Inv.start (fun p t => ?_) fun p => ?_
  · constructor
    · intro ht
      obtain ⟨i, hi, rfl⟩ := List.mem_map.mp ht
      obtain ⟨t, rfl, rfl⟩ := hstate hi
      rfl
    · rintro rfl
      refine List.mem_map.mpr ⟨.state t, ?_, rfl⟩
      rw [x.mem_turns, x.mem_items, h.state, if_pos (hall t)]
  · refine (x.nodup_turns _).map_on fun i hi j hj hij => ?_
    obtain ⟨t, rfl, -⟩ := hstate hi
    obtain ⟨u, rfl, -⟩ := hstate hj
    exact congrArg Item.state hij

variable [DecidableEq ε] [ListImpl σ (Item ι) (ListId ε)] [Simulates R]

theorem prvAddNewTaskToReadyList (h : Created R prio us s x) (ht : t ∉ us) :
    ∃ s' y, s.prvAddNewTaskToReadyList t = some s' ∧ Created R prio (us ++ [t]) s' y := by
  obtain ⟨lists, u, b, rfl⟩ := h.rest
  obtain ⟨h', y, hrun, hr, hput, -⟩ :=
    Lists.putEnd_of h.lists (show x.pxContainer (.state t) = none by rw [h.state, if_neg ht]) (.ready (prio t))
  refine ⟨_, y, Option.map_eq_some_iff.mpr ⟨h', hrun, rfl⟩, hr, ⟨_, _, _, rfl⟩, fun v => ?_, fun v => ?_,
    record_top hput h.top, fun v hv => ?_⟩
  · by_cases hv : v = t
    · subst hv
      rw [hput.container_self, if_pos (by simp)]
    · rw [hput.container_of_ne (by simpa using hv), h.state]
      simp [hv]
  · exact (hput.container_of_ne (by simp)).trans (h.event v)
  · change prio v ≤ prio (if prio u ≤ prio t then t else u)
    have hle (w : ι) (hw : w ∈ us) : prio w ≤ prio u := h.leads w hw
    rcases List.mem_append.mp hv with hv | hv
    · split
      · rename_i hut
        exact (hle v hv).trans hut
      · exact hle v hv
    · obtain rfl := List.mem_singleton.mp hv
      split
      · exact le_refl _
      · rename_i hut
        exact le_of_not_ge hut

theorem foldlM (h : Created R prio us s x) (hnodup : (us ++ ts).Nodup) :
    ∃ s' y, ts.foldlM Sched.prvAddNewTaskToReadyList s = some s' ∧ Created R prio (us ++ ts) s' y := by
  induction ts generalizing us s x with
  | nil => exact ⟨s, x, rfl, by rwa [List.append_nil]⟩
  | cons t ts ih =>
    have ht : t ∉ us := by
      rw [List.nodup_middle, List.nodup_cons] at hnodup
      exact fun hm => hnodup.1 (List.mem_append_left ts hm)
    obtain ⟨s₁, y, hrun, hcreated⟩ := h.prvAddNewTaskToReadyList ht
    rw [← List.singleton_append, ← List.append_assoc] at hnodup ⊢
    obtain ⟨s', z, hrun', hcreated'⟩ := ih hcreated hnodup
    exact ⟨s', z, by rw [List.singleton_append, List.foldlM_cons, hrun]; exact hrun', hcreated'⟩

theorem start {v : Item ι → UInt32} {lists : σ} (hr : R lists (Lists.initialised v)) (hnodup : (t :: ts).Nodup) :
    ∃ s x, Sched.start lists prio t ts = some s ∧ Created R prio (t :: ts) s x :=
  (nobody hr t).foldlM hnodup

end Created

/-! ### On the pointers of `list.c` -/

section Pointers
variable [DecidableEq ε] {v : Item ι → UInt32} {prio : ι → Fin configMaxPriorities} {ts : List ι}
  {s : Sched (Heap (Item ι) (ListId ε)) ι ε}

/-- The states that the scheduler reaches after it started with the tasks `t` and `ts`. -/
def Runs (v : Item ι → UInt32) (prio : ι → Fin configMaxPriorities) (idle t : ι) (ts : List ι)
    (s : Sched (Heap (Item ι) (ListId ε)) ι ε) : Prop :=
  ∃ s₀, start (.initialised v) prio t ts = some s₀ ∧ Run.Reaches step (Allows idle) s₀ s

theorem created (ε : Type) [DecidableEq ε] (v : Item ι → UInt32) (prio : ι → Fin configMaxPriorities)
    (hnodup : (t :: ts).Nodup) : ∃ s x, start (Heap.initialised v : Heap (Item ι) (ListId ε)) prio t ts = some s ∧
      Created Heap.Holds prio (t :: ts) s x :=
  Created.start (Heap.holds_initialised v) hnodup

theorem Runs.good (hall : ∀ u, u ∈ t :: ts) (hnodup : (t :: ts).Nodup) (hr : Runs v prio idle t ts s) :
    ∃ x, Good Heap.Holds idle s x ∧ (s.agenda x).Inv prio ∧ s.uxPriority = prio := by
  obtain ⟨s₀, hs₀, hreaches⟩ := hr
  obtain ⟨s₁, x₀, hs₁, hcreated⟩ := created ε v prio hnodup
  obtain rfl := Option.some.inj (hs₀.symm.trans hs₁)
  have hprio : s₀.uxPriority = prio := by
    obtain ⟨_, _, _, rfl⟩ := hcreated.rest
    rfl
  obtain ⟨x, hgood, hmoves, hs⟩ := (hcreated.good hall idle).reaches hreaches
  rw [hprio] at hmoves hs
  exact ⟨x, hgood, (hcreated.agenda hall).moves hmoves, hs⟩

/-- The scheduler starts, and in every state that it reaches what may happen is possible: no assertion fails, no
    loop runs on, no item is removed that is in no list, and no end marker is taken for a task. The pointers of each
    list close a circle through its end marker, and every task is in one of them. -/
theorem scheduler_goes_on (hall : ∀ u, u ∈ t :: ts) (hnodup : (t :: ts).Nodup) :
    (start (Heap.initialised v : Heap (Item ι) (ListId ε)) prio t ts).isSome ∧
    ∀ s : Sched (Heap (Item ι) (ListId ε)) ι ε, Runs v prio idle t ts s →
      (∃ x : Lists (Item ι) (ListId ε), s.lists.Holds x ∧ ∀ u, ∃ l, .state u ∈ x.items l) ∧
      ∀ a, Allows idle s a → (s.step a).isSome := by
  obtain ⟨s₁, -, hs₁, -⟩ := created ε v prio hnodup
  refine ⟨Option.isSome_iff_exists.mpr ⟨s₁, hs₁⟩, fun s hr => ?_⟩
  obtain ⟨x, hgood, -, -⟩ := hr.good hall hnodup
  refine ⟨⟨x, hgood.inv.lists, fun u => ?_⟩, fun a hok => ?_⟩
  · obtain ⟨l, hl, -⟩ := hgood.inv.filed u (by simp)
    exact ⟨l, x.mem_items.mpr hl⟩
  · obtain ⟨s', -, hs', -⟩ := hgood.steps hok
    exact Option.isSome_iff_exists.mpr ⟨s', hs'⟩

/-- Four tasks: the idle task, two of one priority, and one above them. -/
def fourPriorities : Fin 4 → Fin configMaxPriorities := (![0, 2, 2, 3] : Fin 4 → Fin 5)

/-- The item values as `prvInitialiseNewTask` sets them. -/
def fourValues : Item (Fin 4) → UInt32
  | .state _ => 0
  | .event t => .ofNat (configMaxPriorities - fourPriorities t)

/-- The highest task waits for two ticks, and then for an interrupt; the two below it share the time. -/
def fourTasks : Option (Sched (Heap (Item (Fin 4)) (ListId Unit)) (Fin 4) Unit) :=
  (start (.initialised fourValues) fourPriorities 1 [2, 3, 0]).bind fun s =>
    Run.exec (fun s a => if Allows 0 s a then s.step a else none) s
      [.suspendAll, .delay 2, .tick, .resumeAll, .yield, .pendSV, .tick, .pendSV, .suspendAll, .place () maxDelay,
        .resumeAll, .yield, .pendSV, .tick, .pendSV, .wakeFromISR () true, .pendSV]

def fourEvents : List (TaskEvent (Fin 4)) :=
  [.blocked 3 (some 2), .sysTick, .tick, .chosen 1, .sysTick, .tick, .timedOut 3, .chosen 3, .blocked 3 none, .chosen 2,
    .sysTick, .tick, .chosen 1, .readied 3, .chosen 3]

theorem fourTasks_runs : ∃ s, fourTasks = some s ∧ Runs fourValues fourPriorities 0 1 [2, 3, 0] s ∧ s.history = fourEvents ∧
    s.pxCurrentTCB = 3 ∧ s.pendSV = false ∧ s.xYieldPending = false ∧ s.control s.pxCurrentTCB = .running := by
  have hrun : fourTasks.map (fun s => (s.history, s.pxCurrentTCB, s.pendSV, s.xYieldPending, s.control s.pxCurrentTCB)) =
      some (fourEvents, 3, false, false, .running) := by decide +kernel
  obtain ⟨s, hs, hrun⟩ := Option.map_eq_some_iff.mp hrun
  obtain ⟨s₀, hs₀, hexec⟩ := Option.bind_eq_some_iff.mp hs
  simp only [Prod.mk.injEq] at hrun
  exact ⟨s, hs, ⟨s₀, hs₀, .of_exec_ok hexec⟩, hrun⟩

theorem scheduler_goes_on_four : ∃ s, fourTasks = some s ∧
    (∃ x, s.lists.Holds x ∧ ∀ u, ∃ l, .state u ∈ x.items l) ∧ (s.step .suspendAll).isSome := by
  obtain ⟨s, hs, hr, -, -, hp, -, hc⟩ := fourTasks_runs
  obtain ⟨hholds, hgoes⟩ := (scheduler_goes_on (by decide) (by decide)).2 s hr
  exact ⟨s, hs, hholds, hgoes .suspendAll ⟨by simp [hp], hc⟩⟩

/-- Unless a switch is due, the running task is ready and no ready task has a higher priority; and who is chosen
    is ready and of the highest priority. -/
theorem highest_runs (hall : ∀ u, u ∈ t :: ts) (hnodup : (t :: ts).Nodup) (hr : Runs v prio idle t ts s) :
    (s.pendSV = false → s.xYieldPending = false →
      s.control s.pxCurrentTCB = .running ∨ s.control s.pxCurrentTCB = .locked →
      s.lists.pxContainer (.state s.pxCurrentTCB) = some (.ready (prio s.pxCurrentTCB)) ∧
      ∀ u p, s.lists.pxContainer (.state u) = some (.ready p) → p ≤ prio s.pxCurrentTCB) ∧
    ∀ pre u post, s.history = pre ++ .chosen u :: post →
      waiting u pre = none ∧ ∀ w, waiting w pre = none → prio w ≤ prio u := by
  obtain ⟨x, hgood, hagenda, rfl⟩ := hr.good hall hnodup
  refine ⟨fun hp hy hc => ?_, hagenda.past.highest⟩
  have hready : waiting s.pxCurrentTCB s.history = none := by
    rcases hc with hc | hc
    · exact (hgood.running hc).resolve_left (by simp [hp])
    · exact hgood.locked hc
  have hleads : s.Leads := by
    have := hgood.leads
    rcases hc with hc | hc <;> simpa [hp, hy, hc] using this
  simp only [hgood.inv.lists.container]
  refine ⟨hgood.inv.ready_iff.mpr ⟨rfl, hready⟩, fun u p hu => ?_⟩
  obtain ⟨rfl, hw⟩ := hgood.inv.ready_iff.mp hu
  exact hleads u hw

/-- The interrupt has woken the highest task, and that one runs. -/
theorem highest_runs_four : ∃ s, fourTasks = some s ∧ s.lists.pxContainer (.state 3) = some (.ready (fourPriorities 3)) ∧
    (∀ u p, s.lists.pxContainer (.state u) = some (.ready p) → p ≤ fourPriorities 3) ∧
    ∀ w, waiting w (fourEvents.take 14) = none → fourPriorities w ≤ fourPriorities 3 := by
  obtain ⟨s, hs, hr, hhistory, hcurrent, hp, hy, hc⟩ := fourTasks_runs
  obtain ⟨hruns, hchosen⟩ := highest_runs (by decide) (by decide) hr
  obtain ⟨hready, hhighest⟩ := hruns hp hy (.inl hc)
  rw [hcurrent] at hready hhighest
  exact ⟨s, hs, hready, hhighest, (hchosen (fourEvents.take 14) 3 [] (hhistory.trans rfl)).2⟩

/-- A task that waits for `n` ticks at most is let out when `n` ticks were counted, neither before nor after, unless
    it is woken. It is in a ready list when it does not wait. The ticks that are not counted yet are owed. -/
theorem delays_exact (hall : ∀ u, u ∈ t :: ts) (hnodup : (t :: ts).Nodup) (hr : Runs v prio idle t ts s) :
    (∀ pre u post, s.history = pre ++ .timedOut u :: post → ∃ n, 0 < n ∧ waiting u pre = some (some n, n)) ∧
    (∀ u n k, waiting u s.history = some (some n, k) → k < n) ∧
    (∀ u, waiting u s.history = none ↔ s.lists.pxContainer (.state u) = some (.ready (prio u))) ∧
    s.xTickCount = .ofNat (s.history.count .tick) ∧
    s.history.count .tick + s.xPendedTicks.toNat = s.history.count .sysTick := by
  obtain ⟨x, hgood, hagenda, rfl⟩ := hr.good hall hnodup
  refine ⟨hagenda.past.exact, fun u n k hu => hgood.inv.inTime hu, fun u => ?_, hgood.inv.ticks, hgood.ticks⟩
  rw [hgood.inv.lists.container, hgood.inv.ready_iff]
  simp

/-- It waited for two ticks, the first of which came while the scheduler was suspended. -/
theorem delays_exact_four : ∃ s, fourTasks = some s ∧ waiting 3 (fourEvents.take 6) = some (some 2, 2) ∧
    (∃ n, 0 < n ∧ waiting 3 (fourEvents.take 6) = some (some n, n)) ∧ s.xTickCount = 3 ∧ s.xPendedTicks = 0 ∧
    s.lists.pxContainer (.state 2) = some (.ready (fourPriorities 2)) := by
  obtain ⟨s, hs, hr, hhistory, -⟩ := fourTasks_runs
  obtain ⟨hexact, -, hready, hcount, howed⟩ := delays_exact (by decide) (by decide) hr
  rw [hhistory] at hcount howed
  refine ⟨s, hs, rfl, hexact (fourEvents.take 6) 3 (fourEvents.drop 7) (hhistory.trans rfl), hcount.trans rfl, ?_,
    (hready 2).mp (by rw [hhistory]; rfl)⟩
  exact UInt32.toNat_inj.mp (Nat.add_left_cancel (howed.trans rfl))

/-- Between two turns of a task, each other task of its priority that was ready has its turn, unless one of the two
    blocks. -/
theorem turns_taken (hall : ∀ u, u ∈ t :: ts) (hnodup : (t :: ts).Nodup) (hr : Runs v prio idle t ts s) :
    ∀ pre u mid post w, s.history = pre ++ .chosen u :: (mid ++ .chosen u :: post) → w ≠ u → prio w = prio u →
      waiting w pre = none → (∀ n, .blocked w n ∉ mid ∧ .blocked u n ∉ mid) → .chosen w ∈ mid := by
  obtain ⟨x, -, hagenda, -⟩ := hr.good hall hnodup
  exact hagenda.past.fair

/-- Between the two turns of the one task, the other one of its priority has its turn. -/
theorem turns_taken_four : ∃ s, fourTasks = some s ∧
    s.history = fourEvents.take 3 ++ .chosen 1 :: ((fourEvents.drop 4).take 8 ++ .chosen 1 :: fourEvents.drop 13) ∧
    TaskEvent.chosen 2 ∈ (fourEvents.drop 4).take 8 := by
  obtain ⟨s, hs, hr, hhistory, -⟩ := fourTasks_runs
  have hcut : s.history = fourEvents.take 3 ++ .chosen 1 ::
      ((fourEvents.drop 4).take 8 ++ .chosen 1 :: fourEvents.drop 13) := hhistory.trans rfl
  refine ⟨s, hs, hcut, turns_taken (by decide) (by decide) hr _ 1 _ _ 2 hcut (by decide) rfl rfl fun n => ?_⟩
  simp [fourEvents]

end Pointers

end Sched

end SpeakingClock.Kernel
