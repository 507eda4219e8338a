import SpeakingClock.Theorems.Query

/-! The time that `ntp_get_time` writes: which datagram of a schedule decides it, how many polls it takes,
    and what the 32-bit arithmetic makes of the timestamp on both sides of the era rollover. -/

namespace SpeakingClock

/-! ### Which datagram decides -/

def Callback.datagram? : Callback → Option Pbuf
  | .recv p _ _ => p
  | .status .. => none

/-- The datagrams of 48 bytes or more that a poll delivers, in order. -/
def longDatagrams (cbs : List Callback) : List Pbuf :=
  (cbs.filterMap Callback.datagram?).filter fun p => 48 ≤ p.payload.length

/-- The big-endian value of the four bytes from `i` on. -/
def bigEndian (bs : Bytes) (i : Nat) : Nat :=
  (((bs.getD i 0).toNat * 256 + (bs.getD (i + 1) 0).toNat) * 256 + (bs.getD (i + 2) 0).toNat) * 256 +
    (bs.getD (i + 3) 0).toNat

theorem length_payload (p : Pbuf) : p.payload.length = p.totLen := by simp [Pbuf.payload, Pbuf.totLen]

theorem filterMap_taken (cbs : List Callback) : cbs.filterMap Callback.taken = longDatagrams cbs := by
  induction cbs with
  | nil => rfl
  | cons cb cbs ih =>
    rcases cb with ⟨_ | p, addr, port⟩ | ⟨ip, netmask, gw⟩
    · exact ih
    · by_cases hp : p.totLen ≥ ntpPacketSize
      · have hlong : 48 ≤ p.payload.length := by rwa [length_payload]
        have htaken : (Callback.recv (some p) addr port).taken = some p := if_pos hp
        rw [List.filterMap_cons_some htaken, ih]
        simp [longDatagrams, Callback.datagram?, hlong]
      · have hshort : ¬48 ≤ p.payload.length := by rwa [length_payload]
        have htaken : (Callback.recv (some p) addr port).taken = none := if_neg hp
        rw [List.filterMap_cons_none htaken, ih]
        simp [longDatagrams, Callback.datagram?, hshort]
    · exact ih

theorem transmitTimestamp_eq (buf : Bytes) : transmitTimestamp buf = UInt32.ofNat (bigEndian buf 40) := by
  unfold transmitTimestamp bigEndian
  generalize buf.getD 40 0 = a
  generalize buf.getD (40 + 1) 0 = b
  generalize buf.getD (40 + 2) 0 = c
  generalize buf.getD (40 + 3) 0 = d
  have ha := a.toNat_lt
  have hb := b.toNat_lt
  have hc := c.toNat_lt
  have hd := d.toNat_lt
  have shift : ∀ (x : UInt8) (i : Nat), i ≤ 24 → x.toNat <<< i % 2 ^ 32 = 2 ^ i * x.toNat := by
    intro x i hi
    have hx : x.toNat < 2 ^ 8 := x.toNat_lt
    have hlt : 2 ^ i * x.toNat < 2 ^ 24 * 2 ^ 8 :=
      Nat.mul_lt_mul_of_le_of_lt (Nat.pow_le_pow_right (by decide) hi) hx (by positivity)
    rw [Nat.shiftLeft_eq, Nat.mul_comm, Nat.mod_eq_of_lt (by omega)]
  apply UInt32.toNat_inj.mp
  simp only [UInt32.toNat_or, UInt32.toNat_shiftLeft, UInt8.toNat_toUInt32, UInt32.toNat_ofNat', UInt32.reduceToNat,
    Nat.or_assoc]
  -- The shifted bytes do not overlap.
  rw [shift a 24 (by omega), shift b 16 (by omega), shift c 8 (by omega), ← Nat.two_pow_add_eq_or_of_lt hd c.toNat,
    ← Nat.two_pow_add_eq_or_of_lt (by omega) b.toNat, ← Nat.two_pow_add_eq_or_of_lt (by omega) a.toNat]
  omega

theorem timestamp_eq (p : Pbuf) : p.timestamp = UInt32.ofNat (bigEndian p.payload 40) := by
  have hget : ∀ i < 48, (pbufCopyPartial p ntpPacketSize 0).getD i 0 = p.payload.getD i 0 := by
    intro i hi
    simp [pbufCopyPartial, ntpPacketSize, List.getD_eq_getElem?_getD, hi]
  rw [Pbuf.timestamp, transmitTimestamp_eq, bigEndian, bigEndian, hget 40 (by omega), hget 41 (by omega),
    hget 42 (by omega), hget 43 (by omega)]

section
variable {polls : List (List Callback)}

theorem headD_eq_getD : polls.headD [] = polls.getD 0 [] := by cases polls <;> rfl

theorem tail_getD (k : Nat) : polls.tail.getD k [] = polls.getD (k + 1) [] := by cases polls <;> rfl

/-- The answer is the last long datagram of the first poll that delivers one. -/
theorem answer_eq_some {timeout k : Nat} {p : Pbuf} (hk : k < timeout)
    (hnone : ∀ j < k, longDatagrams (polls.getD j []) = [])
    (hlast : (longDatagrams (polls.getD k [])).getLast? = some p) : answer timeout polls = some p := by
  induction timeout generalizing k polls with
  | zero => omega
  | succ timeout ih =>
    rw [answer, filterMap_taken, headD_eq_getD]
    cases k with
    | zero => rw [hlast]
    | succ k =>
      rw [hnone 0 (by omega)]
      refine ih (k := k) (by omega) (fun j hj => ?_) (by rwa [tail_getD])
      rw [tail_getD]
      exact hnone (j + 1) (by omega)

theorem answer_eq_none {timeout : Nat} (hnone : ∀ k < timeout, longDatagrams (polls.getD k []) = []) :
    answer timeout polls = none := by
  induction timeout generalizing polls with
  | zero => rfl
  | succ timeout ih =>
    rw [answer, filterMap_taken, headD_eq_getD, hnone 0 (by omega)]
    refine ih fun k hk => ?_
    rw [tail_getD]
    exact hnone (k + 1) (by omega)

/-- The first poll that delivers a long datagram, if one does. -/
theorem exists_first {timeout : Nat} (h : ∃ k < timeout, longDatagrams (polls.getD k []) ≠ []) :
    ∃ k < timeout, (∀ j < k, longDatagrams (polls.getD j []) = []) ∧
      ∃ p, (longDatagrams (polls.getD k [])).getLast? = some p := by
  classical
  obtain ⟨hlt, hne⟩ := Nat.find_spec h
  refine ⟨Nat.find h, hlt, fun j hj => ?_, _, List.getLast?_eq_getLast_of_ne_nil hne⟩
  by_contra hj'
  exact Nat.find_min h hj ⟨by omega, hj'⟩

/-- The loop polls up to that poll and no further. -/
theorem waitResponse_polls {timeout k : Nat} {app : App} {env : QueryEnv} (happ : app.ntpResponseReceived = false)
    (hk : k < timeout) (hnone : ∀ j < k, longDatagrams (env.polls.getD j []) = [])
    (hsome : longDatagrams (env.polls.getD k []) ≠ []) :
    (waitResponse scripted timeout (app, env)).2.polls = env.polls.drop (k + 1) := by
  induction timeout generalizing k app env with
  | zero => omega
  | succ timeout ih =>
    obtain ⟨hpoll, -, htail⟩ := scripted_listed.poll app env trivial
    have hreply := runPoll_reply (env.polls.headD []) app
    rw [filterMap_taken, headD_eq_getD] at hreply
    rw [headD_eq_getD] at hpoll
    rw [waitResponse, if_neg (by simp [happ])]
    generalize lwipPeriodicHandle scripted (app, env) = s at hpoll htail
    obtain ⟨app', env'⟩ := s
    dsimp only at hpoll htail
    rw [← hpoll] at hreply
    cases k with
    | zero =>
      rw [List.getLast?_eq_getLast_of_ne_nil hsome, Prod.mk.injEq] at hreply
      have hstop : waitResponse scripted timeout (app', env') = (app', env') := by
        cases timeout <;> simp [waitResponse, hreply.1]
      rw [hstop, List.drop_one]
      exact htail
    | succ k =>
      rw [hnone 0 (by omega), List.getLast?_nil, Prod.mk.injEq, happ] at hreply
      have hrest : (waitResponse scripted timeout (app', env')).2.polls = env'.polls.drop (k + 1) := by
        refine ih hreply.1 (by omega) (fun j hj => ?_) ?_
        · rw [htail, tail_getD]
          exact hnone (j + 1) (by omega)
        · rwa [htail, tail_getD]
      rw [hrest, htail, List.drop_tail]

end

theorem ntpGetTime_sent {env : QueryEnv} (hnew : env.udpNew = true) (halloc : env.pbufAlloc = true)
    (hsend : env.sendto = 0) (msg : TimeMsg) (app : App) :
    ∃ app', app'.ntpResponseReceived = false ∧
      (ntpGetTime scripted msg (app, env)).2.2.2 = (waitResponse scripted ntpTimeoutCycles (app', env)).2 := by
  simp only [ntpGetTime, scripted, hnew, halloc, hsend, ↓reduceIte, ne_eq, not_true]
  exact ⟨_, rfl, awaitReply_world _ _ _⟩

section
variable {env : QueryEnv} {k : Nat} {p : Pbuf}

/-- The time of the answer, and the polls that are left. -/
theorem ntpGetTime_answered (hnew : env.udpNew = true) (halloc : env.pbufAlloc = true) (hsend : env.sendto = 0)
    (msg : TimeMsg) (app : App) (hk : k < 5000) (hnone : ∀ j < k, longDatagrams (env.polls.getD j []) = [])
    (hlast : (longDatagrams (env.polls.getD k [])).getLast? = some p) :
    (ntpGetTime scripted msg (app, env)).1 = 0 ∧
      (ntpGetTime scripted msg (app, env)).2.1 = istOfTimestamp (UInt32.ofNat (bigEndian p.payload 40)) ∧
      (ntpGetTime scripted msg (app, env)).2.2.2.polls = env.polls.drop (k + 1) := by
  have hans : env.answer = some p := (if_pos ⟨hnew, halloc, hsend⟩).trans (answer_eq_some hk hnone hlast)
  have hr := ntpGetTime_scripted msg app env
  rw [hans, Prod.mk.injEq, timestamp_eq] at hr
  obtain ⟨app', happ, hworld⟩ := ntpGetTime_sent hnew halloc hsend msg app
  have hsome : longDatagrams (env.polls.getD k []) ≠ [] := by
    intro hnil
    rw [hnil] at hlast
    cases hlast
  refine ⟨hr.1, hr.2, ?_⟩
  rw [hworld]
  exact waitResponse_polls happ hk hnone hsome

theorem ntpGetTime_unanswered (hans : env.answer = none) (msg : TimeMsg) (app : App) :
    (ntpGetTime scripted msg (app, env)).1 = -1 := by
  have hr := ntpGetTime_scripted msg app env
  rw [hans, Prod.mk.injEq] at hr
  exact hr.1

/-- Only the long datagrams of the polls matter. -/
theorem ntpGetTime_congr {env' : QueryEnv} (hnew : env'.udpNew = env.udpNew) (halloc : env'.pbufAlloc = env.pbufAlloc)
    (hsend : env'.sendto = env.sendto)
    (hpolls : ∀ k < 5000, longDatagrams (env'.polls.getD k []) = longDatagrams (env.polls.getD k [])) (msg : TimeMsg)
    (app app' : App) :
    ((ntpGetTime scripted msg (app', env')).1, (ntpGetTime scripted msg (app', env')).2.1) =
      ((ntpGetTime scripted msg (app, env)).1, (ntpGetTime scripted msg (app, env)).2.1) := by
  have hcongr : answer ntpTimeoutCycles env'.polls = answer ntpTimeoutCycles env.polls :=
    answer_congr fun k hk => by rw [filterMap_taken, filterMap_taken, hpolls k hk]
  have hans : env'.answer = env.answer := by
    rw [QueryEnv.answer, QueryEnv.answer, hnew, halloc, hsend, hcongr]
  rw [ntpGetTime_scripted, ntpGetTime_scripted, hans]

end

/-- **What `ntp_get_time` computes, for every schedule.** It returns 0 or -1, and on -1 `*msg` is as it
    was. When the request is sent it returns 0 exactly if one of the 5000 polls delivers a datagram of
    48 bytes or more; it stops after the first poll that does, and the time is that of the big-endian
    word at byte 40 of the last such datagram in that poll. Shorter datagrams do not matter. -/
theorem ntpGetTime_correct (msg : TimeMsg) (app : App) (env : QueryEnv) :
    let r := ntpGetTime scripted msg (app, env)
    (r.1 = 0 ∨ r.1 = -1) ∧
    (r.1 = -1 → r.2.1 = msg) ∧
    (env.udpNew = false ∨ env.pbufAlloc = false ∨ env.sendto ≠ 0 → r.1 = -1) ∧
    (env.udpNew = true → env.pbufAlloc = true → env.sendto = 0 →
      (r.1 = 0 ↔ ∃ k < 5000, longDatagrams (env.polls.getD k []) ≠ []) ∧
      ∀ k < 5000, (∀ j < k, longDatagrams (env.polls.getD j []) = []) →
        ∀ p, (longDatagrams (env.polls.getD k [])).getLast? = some p →
          r.1 = 0 ∧ r.2.1 = istOfTimestamp (UInt32.ofNat (bigEndian p.payload 40)) ∧
            r.2.2.2.polls = env.polls.drop (k + 1)) ∧
    ∀ env' : QueryEnv, env'.udpNew = env.udpNew → env'.pbufAlloc = env.pbufAlloc → env'.sendto = env.sendto →
      (∀ k < 5000, longDatagrams (env'.polls.getD k []) = longDatagrams (env.polls.getD k [])) → ∀ app' : App,
        ((ntpGetTime scripted msg (app', env')).1, (ntpGetTime scripted msg (app', env')).2.1) = (r.1, r.2.1) := by
  intro r
  refine ⟨?_, ?_, fun hfail => ?_, fun hnew halloc hsend => ?_, fun env' hnew halloc hsend hpolls app' => ?_⟩
  · have hr : (r.1, r.2.1) = _ := ntpGetTime_scripted msg app env
    split at hr
    · exact .inl (Prod.mk.inj hr).1
    · exact .inr (Prod.mk.inj hr).1
  · intro hfail
    have hr : (r.1, r.2.1) = _ := ntpGetTime_scripted msg app env
    split at hr
    · exact absurd (hfail.symm.trans (Prod.mk.inj hr).1) (by decide)
    · exact (Prod.mk.inj hr).2
  · have hunsent : ¬(env.udpNew = true ∧ env.pbufAlloc = true ∧ env.sendto = 0) := by
      rintro ⟨hnew, halloc, hsend⟩
      simp [hnew, halloc, hsend] at hfail
    exact ntpGetTime_unanswered (if_neg hunsent) msg app
  · refine ⟨⟨fun hok => ?_, fun hsome => ?_⟩, fun k hk hnone p hlast =>
      ntpGetTime_answered hnew halloc hsend msg app hk hnone hlast⟩
    · by_contra hnone
      have hnone : ∀ k < 5000, longDatagrams (env.polls.getD k []) = [] := by
        intro k hk
        by_contra hlong
        exact hnone ⟨k, hk, hlong⟩
      have hans : env.answer = none := (if_pos ⟨hnew, halloc, hsend⟩).trans (answer_eq_none hnone)
      exact absurd (hok.symm.trans (ntpGetTime_unanswered hans msg app)) (by decide)
    · obtain ⟨k, hk, hnone, p, hlast⟩ := exists_first hsome
      exact (ntpGetTime_answered hnew halloc hsend msg app hk hnone hlast).1
  · exact ntpGetTime_congr hnew halloc hsend hpolls msg app app'

/-- A short datagram, then a poll with two replies in chains of several segments: the second counts, and
    the third poll is not made. -/
theorem ntpGetTime_correct_second :
    let env : QueryEnv := ⟨true, true, 0, [[.recv (some ⟨0, [List.replicate 47 1]⟩) serverAddr ntpPort],
      [.recv (some ⟨1, [List.replicate 40 0, List.replicate 8 0]⟩) serverAddr ntpPort,
        .recv (some ⟨2, [List.replicate 41 0xEC, [0, 0], List.replicate 9 0]⟩) serverAddr ntpPort], []]⟩
    (ntpGetTime scripted ⟨0, 0, 0⟩ (⟨false, 0, true, []⟩, env)).1 = 0 ∧
    (ntpGetTime scripted ⟨0, 0, 0⟩ (⟨false, 0, true, []⟩, env)).2.1 = ⟨21, 12, 56⟩ ∧
    (ntpGetTime scripted ⟨0, 0, 0⟩ (⟨false, 0, true, []⟩, env)).2.2.2.polls = [[]] := by
  intro env
  obtain ⟨-, -, -, hsent, -⟩ := ntpGetTime_correct ⟨0, 0, 0⟩ ⟨false, 0, true, []⟩ env
  obtain ⟨h0, hmsg, hpolls⟩ := (hsent rfl rfl rfl).2 1 (by decide) (by decide)
    ⟨2, [List.replicate 41 0xEC, [0, 0], List.replicate 9 0]⟩ (by decide)
  exact ⟨h0, hmsg.trans (by decide), hpolls⟩

/-! ### The conversion -/

/-- The second of the day that the fields of a message say. -/
def TimeMsg.secondOfDay (m : TimeMsg) : Nat := 3600 * m.hour.toNat + 60 * m.minute.toNat + m.second.toNat

/-- The fields are those of the 32-bit IST time: none is truncated to eight bits. -/
theorem istOfTimestamp_fields (ts : UInt32) : (istOfTimestamp ts).InRange ∧
    (istOfTimestamp ts).secondOfDay = (ts - ntpUnixEpochDiff + istOffsetSeconds).toNat % 86400 := by
  have hday : (ts - ntpUnixEpochDiff + istOffsetSeconds).toNat % 86400 < 86400 := Nat.mod_lt _ (by decide)
  simp only [TimeMsg.InRange, TimeMsg.secondOfDay, istOfTimestamp, UInt8.lt_iff_toNat_lt, UInt32.toNat_toUInt8,
    UInt32.toNat_div, UInt32.toNat_mod, UInt32.reduceToNat, UInt8.reduceToNat]
  generalize (ts - ntpUnixEpochDiff + istOffsetSeconds).toNat % 86400 = d at hday
  omega

/-- The seconds of an NTP timestamp at the instant `u`, in Unix seconds. They wrap in 2036. -/
def ntpSeconds (u : Nat) : UInt32 := UInt32.ofNat ((u + 2208988800) % 2 ^ 32)

/-- **The conversion is right up to 2106.** For every instant `u` below 2^32 the timestamp of the server
    gives fields in range, and they are the IST time of day of `u` exactly when `u + 19800` does not pass
    2^32. -/
theorem istOfTimestamp_exact_iff (u : Nat) (hu : u < 2 ^ 32) :
    (istOfTimestamp (ntpSeconds u)).InRange ∧
      (istOfTimestamp (ntpSeconds u)).secondOfDay = (u + 19800) % 2 ^ 32 % 86400 ∧
      ((istOfTimestamp (ntpSeconds u)).secondOfDay = (u + 19800) % 86400 ↔ u + 19800 < 2 ^ 32) := by
  obtain ⟨hrange, hfields⟩ := istOfTimestamp_fields (ntpSeconds u)
  have hist : (ntpSeconds u - ntpUnixEpochDiff + istOffsetSeconds).toNat = (u + 19800) % 2 ^ 32 := by
    rw [ntpSeconds, UInt32.toNat_add, UInt32.toNat_sub, UInt32.toNat_ofNat', ntpUnixEpochDiff, istOffsetSeconds]
    simp only [UInt32.reduceToNat]
    omega
  rw [hist] at hfields
  refine ⟨hrange, hfields, ?_⟩
  rw [hfields]
  constructor
  · intro hsame
    by_contra hwrap
    omega
  · intro hfit
    rw [Nat.mod_eq_of_lt hfit]

/-- The second at which the timestamp wraps to 0, and the last second before `u + 19800` wraps. -/
theorem istOfTimestamp_exact_rollover :
    ntpSeconds 2085978496 = 0 ∧ (istOfTimestamp 0).secondOfDay = (2085978496 + 19800) % 86400 ∧
      (istOfTimestamp (ntpSeconds 4294947495)).secondOfDay = (4294947495 + 19800) % 86400 ∧
      (istOfTimestamp (ntpSeconds 4294947496)).secondOfDay ≠ (4294947496 + 19800) % 86400 :=
  ⟨rfl, (istOfTimestamp_exact_iff 2085978496 (by decide)).2.2.mpr (by decide),
    (istOfTimestamp_exact_iff 4294947495 (by decide)).2.2.mpr (by decide),
    fun h => absurd ((istOfTimestamp_exact_iff 4294947496 (by decide)).2.2.mp h) (by decide)⟩

end SpeakingClock
