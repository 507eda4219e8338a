import SpeakingClock.Lib.Run
import SpeakingClock.Theorems.Net.ArpTable

/-! Runs of ARP. The invariant of the table goes with its record: each stable entry has the address that its
    host announced last, as many seconds ago as the entry is old, and what was sent to a host, followed by
    what waits for it, is what was given for it, in order, less what was dropped. -/

namespace SpeakingClock.Net
variable {P : Type}

/-! ### What the record says -/

/-- The packets that were given for a next hop. -/
def givenTo (hop : UInt32) (es : List (ArpEvent P)) : List P :=
  es.filterMap fun
    | .given h q => if h = hop then some q else none
    | _ => none

/-- The packets that `ethernet_output` got for a next hop. -/
def sentTo (hop : UInt32) (es : List (ArpEvent P)) : List P :=
  es.filterMap fun
    | .xmit (some h) q _ _ => if h = hop then some q else none
    | _ => none

def noteAnnounced (hop : UInt32) (last : Option (EthAddr × Nat)) : ArpEvent P → Option (EthAddr × Nat)
  | .announced h mac => if h = hop then some (mac, 0) else last
  | .tick => last.map fun x => (x.1, x.2 + 1)
  | _ => last

/-- The Ethernet address that a host announced last, and how many seconds ago. -/
def lastAnnounced (hop : UInt32) (es : List (ArpEvent P)) : Option (EthAddr × Nat) := es.foldl (noteAnnounced hop) none

/-- Every packet for a host goes to the address that the host announced last, less than 300 seconds ago. -/
def Timely (es : List (ArpEvent P)) : Prop :=
  ∀ pre hop q src dst post, es = pre ++ .xmit (some hop) q src dst :: post →
    ∃ age < 300, lastAnnounced hop pre = some (dst, age)

/-- The events that say something about a host. -/
def ArpEvent.Concerns (hop : UInt32) : ArpEvent P → Prop
  | .given h _ | .announced h _ | .xmit (some h) _ _ _ => h = hop
  | .tick => True
  | .xmit none .. | .arp .. => False

section
variable {hop : UInt32} {es evs : List (ArpEvent P)}

@[simp] theorem givenTo_append : givenTo hop (es ++ evs) = givenTo hop es ++ givenTo hop evs := List.filterMap_append

@[simp] theorem sentTo_append : sentTo hop (es ++ evs) = sentTo hop es ++ sentTo hop evs := List.filterMap_append

theorem lastAnnounced_append : lastAnnounced hop (es ++ evs) = evs.foldl (noteAnnounced hop) (lastAnnounced hop es) :=
  List.foldl_append

/-- Events that do not concern a host leave its part of the record alone. -/
theorem unconcerned (h : ∀ e ∈ evs, ¬e.Concerns hop) : givenTo hop (es ++ evs) = givenTo hop es ∧
    sentTo hop (es ++ evs) = sentTo hop es ∧ lastAnnounced hop (es ++ evs) = lastAnnounced hop es := by
  induction evs generalizing es with
  | nil => simp
  | cons e evs ih =>
    obtain ⟨hgiven, hsent, hlast⟩ := @ih (es ++ [e]) fun e' he' => h e' (List.mem_cons_of_mem _ he')
    rw [List.append_assoc, List.singleton_append] at hgiven hsent hlast
    have he := h e List.mem_cons_self
    rw [hgiven, hsent, hlast, givenTo_append, sentTo_append, lastAnnounced_append]
    cases e with
    | given h' | announced h' =>
      have hne : ¬h' = hop := he
      simp [givenTo, sentTo, noteAnnounced, hne]
    | tick => exact absurd trivial he
    | xmit h' =>
      cases h' with
      | none => simp [givenTo, sentTo, noteAnnounced]
      | some h' =>
        have hne : ¬h' = hop := he
        simp [givenTo, sentTo, noteAnnounced, hne]
    | arp => simp [givenTo, sentTo, noteAnnounced]

theorem Timely.snoc {e : ArpEvent P} (h : Timely es)
    (he : ∀ hop q src dst, e = .xmit (some hop) q src dst → ∃ age < 300, lastAnnounced hop es = some (dst, age)) :
    Timely (es ++ [e]) := by
  intro pre hop q src dst post heq
  rcases List.eq_nil_or_concat post with rfl | ⟨post, e', rfl⟩
  · obtain ⟨rfl, hlast⟩ := List.append_inj' heq rfl
    cases hlast
    exact he hop q src dst rfl
  · rw [List.concat_eq_append, ← List.cons_append, ← List.append_assoc] at heq
    obtain ⟨rfl, -⟩ := List.append_inj' heq rfl
    exact h pre hop q src dst post rfl

theorem Timely.append (h : Timely es) (hevs : ∀ e ∈ evs, ∀ hop q src dst, e ≠ .xmit (some hop) q src dst) :
    Timely (es ++ evs) := by
  induction evs generalizing es with
  | nil => rwa [List.append_nil]
  | cons e evs ih =>
    rw [← List.singleton_append, ← List.append_assoc]
    refine ih (h.snoc fun hop q src dst he => ?_) fun e' he' => hevs e' (List.mem_cons_of_mem _ he')
    exact absurd he (hevs e List.mem_cons_self hop q src dst)

/-- Packets that go to the address that their host has announced. -/
theorem Timely.sends {src dst : EthAddr} {age : Nat} (h : Timely es) (hlast : lastAnnounced hop es = some (dst, age))
    (hage : age < 300) (qs : List P) : Timely (es ++ qs.map fun q => .xmit (some hop) q src dst) := by
  induction qs generalizing es with
  | nil => simpa using h
  | cons q qs ih =>
    rw [List.map_cons, ← List.singleton_append, ← List.append_assoc]
    refine ih (h.snoc fun hop' q' src' dst' he => ?_) ?_
    · cases he
      exact ⟨age, hage, hlast⟩
    · rw [lastAnnounced_append]
      exact hlast

end

/-! ### The invariant -/

/-- What holds of an entry, which may have `late` ticks yet to count. -/
structure EtharpEntry.Ok (late : Nat) (es : List (ArpEvent P)) (e : EtharpEntry P) : Prop where
  waits : e.q ≠ [] → e.state = .pending
  short : e.q.length ≤ arpQueueLen
  young : e.ctime.toNat < 300
  pendingYoung : e.state = .pending → e.ctime.toNat < 5
  fresh : e.state.isStable → lastAnnounced e.ipaddr es = some (e.ethaddr, e.ctime.toNat + late)
  order : e.state ≠ .empty → (sentTo e.ipaddr es ++ e.q).Sublist (givenTo e.ipaddr es)

namespace Etharp

/-- No other entry than `i` is in use for the address. -/
def Apart (s : Etharp P) (i : Fin arpTableSize) (ipaddr : UInt32) : Prop := ∀ j ≠ i, ¬s.Has j ipaddr

/-- The ticks that an entry has yet to count, when the entries `late` have not had the last one. -/
def lateness (late : List (Fin arpTableSize)) (i : Fin arpTableSize) : Nat := if i ∈ late then 1 else 0

structure Inv (s : Etharp P) (late : List (Fin arpTableSize)) : Prop where
  unique : ∀ i, s.Apart i (s.arpTable i).ipaddr ∨ (s.arpTable i).state = .empty
  pool : s.arpQueue + ∑ i, (s.arpTable i).q.length = memNumArpQueue
  ok : ∀ i, (s.arpTable i).Ok (lateness late i) s.history
  order : ∀ hop, (sentTo hop s.history).Sublist (givenTo hop s.history)
  timely : Timely s.history

variable {s s' : Etharp P} {i : Fin arpTableSize} {e : EtharpEntry P} {hop : UInt32} {q : P}
  {late late' : List (Fin arpTableSize)} {evs : List (ArpEvent P)}

theorem Inv.apart (h : s.Inv late) (hi : s.Has i hop) : s.Apart i hop := by
  rw [hi.2]
  exact (h.unique i).resolve_right hi.1

theorem Inv.no_queue (h : s.Inv late) (hi : (s.arpTable i).state ≠ .pending) : (s.arpTable i).q = [] := by
  by_contra hq
  exact hi ((h.ok i).waits hq)

theorem sum_update (t : Fin arpTableSize → EtharpEntry P) (i : Fin arpTableSize) (e : EtharpEntry P) :
    (∑ j, (Function.update t i e j).q.length) + (t i).q.length = (∑ j, (t j).q.length) + e.q.length := by
  have hnew := Finset.add_sum_erase Finset.univ (fun j => (Function.update t i e j).q.length) (Finset.mem_univ i)
  have hold := Finset.add_sum_erase Finset.univ (fun j => (t j).q.length) (Finset.mem_univ i)
  have hrest : ∑ j ∈ Finset.univ.erase i, (Function.update t i e j).q.length = ∑ j ∈ Finset.univ.erase i, (t j).q.length :=
    Finset.sum_congr rfl fun j hj => by rw [Function.update_of_ne (Finset.ne_of_mem_erase hj)]
  simp only [Function.update_self] at hnew
  omega

/-- One entry is replaced and something is recorded, none of which concerns a host of another entry. -/
theorem Inv.at (h : s.Inv late) (htable : s'.arpTable = Function.update s.arpTable i e)
    (hhistory : s'.history = s.history ++ evs)
    (hpool : s'.arpQueue + e.q.length = s.arpQueue + (s.arpTable i).q.length) (hlate : ∀ j ≠ i, j ∈ late' ↔ j ∈ late)
    (hother : ∀ j ≠ i, (s.arpTable j).state ≠ .empty →
      (e.state ≠ .empty → (s.arpTable j).ipaddr ≠ e.ipaddr) ∧ ∀ ev ∈ evs, ¬ev.Concerns (s.arpTable j).ipaddr)
    (hok : e.Ok (lateness late' i) s'.history)
    (horder : ∀ hop, (sentTo hop s'.history).Sublist (givenTo hop s'.history)) (htimely : Timely s'.history) :
    s'.Inv late' where
  unique j := by
    rw [htable]
    by_cases hj : j = i
    · subst hj
      rw [Function.update_self]
      by_cases he : e.state = .empty
      · exact Or.inr he
      · refine Or.inl fun k hk ⟨hne, heq⟩ => ?_
        rw [htable, Function.update_of_ne hk] at hne heq
        exact (hother k hk hne).1 he heq.symm
    · rw [Function.update_of_ne hj]
      by_cases hempty : (s.arpTable j).state = .empty
      · exact Or.inr hempty
      · refine Or.inl fun k hk ⟨hne, heq⟩ => ?_
        rw [htable] at hne heq
        by_cases hki : k = i
        · subst hki
          rw [Function.update_self] at hne heq
          exact (hother j hj hempty).1 hne heq
        · rw [Function.update_of_ne hki] at hne heq
          exact (h.unique j).resolve_right hempty k hk ⟨hne, heq⟩
  pool := by
    have hsum := sum_update s.arpTable i e
    have hold := h.pool
    rw [htable]
    omega
  ok j := by
    rw [htable]
    by_cases hj : j = i
    · subst hj
      rwa [Function.update_self]
    · rw [Function.update_of_ne hj, hhistory]
      have hold := h.ok j
      have hlateness : lateness late' j = lateness late j := by simp only [lateness, hlate j hj]
      rw [hlateness]
      by_cases hempty : (s.arpTable j).state = .empty
      · exact ⟨hold.waits, hold.short, hold.young, hold.pendingYoung,
          fun hstable => by simp [hempty, EtharpState.isStable] at hstable, fun hne => absurd hempty hne⟩
      · obtain ⟨hgiven, hsent, hlast⟩ := @unconcerned P _ s.history _ (hother j hj hempty).2
        refine ⟨hold.waits, hold.short, hold.young, hold.pendingYoung, fun hstable => ?_, fun hne => ?_⟩
        · rw [hlast]
          exact hold.fresh hstable
        · rw [hgiven, hsent]
          exact hold.order hne
  order := horder
  timely := htimely

/-- An entry changes while nothing is recorded: it keeps its address and its queue, or is emptied. -/
theorem Inv.replace (h : s.Inv late) (hlate : ∀ j ≠ i, j ∈ late' ↔ j ∈ late)
    (hsame : e.q.length = (s.arpTable i).q.length) (hip : e.state ≠ .empty → s.Apart i e.ipaddr)
    (hok : e.Ok (lateness late' i) s.history) : (s.setEntry i e).Inv late' :=
  h.at rfl (List.append_nil _).symm (by rw [hsame]; rfl) hlate
    (fun j hj hne => ⟨fun he heq => hip he j hj ⟨hne, heq.symm⟩, fun _ hev => absurd hev List.not_mem_nil⟩) hok h.order h.timely

theorem Inv.freeEntry (h : s.Inv late) (hlate : ∀ j ≠ i, j ∈ late' ↔ j ∈ late) : (s.freeEntry i).Inv late' :=
  h.at rfl (List.append_nil _).symm rfl hlate
    (fun _ _ _ => ⟨fun he => absurd rfl he, fun _ hev => absurd hev List.not_mem_nil⟩)
    ⟨fun hq => absurd rfl hq, Nat.zero_le _, Nat.zero_lt_succ _, fun he => (by cases he), fun he => (by cases he), fun he => absurd rfl he⟩
    h.order h.timely

/-- The entry that an address is about to get. -/
structure Ready (s : Etharp P) (i : Fin arpTableSize) (hop : UInt32) : Prop where
  apart : s.Apart i hop
  ipaddr : (s.arpTable i).ipaddr = hop
  empty : (s.arpTable i).state = .empty → (s.arpTable i).q = [] ∧ (s.arpTable i).ctime = 0

theorem Inv.newEntry (h : s.Inv late) (hempty : (s.arpTable i).state = .empty) (hno : ∀ j, ¬s.Has j hop) :
    (s.newEntry i hop).Inv late ∧ (s.newEntry i hop).Ready i hop := by
  have hq := h.no_queue (show (s.arpTable i).state ≠ .pending by rw [hempty]; decide)
  constructor
  · refine h.replace (fun _ _ => Iff.rfl) rfl (fun he => absurd hempty he) ?_
    exact ⟨fun hne => absurd hq hne, (h.ok i).short, Nat.zero_lt_succ _, fun hp => by simp [hempty] at hp,
      fun hs => by simp [hempty, EtharpState.isStable] at hs, fun hne => absurd hempty hne⟩
  · refine ⟨fun j hj hhas => ?_, ?_, fun _ => ?_⟩
    · obtain ⟨hne, heq⟩ := hhas
      simp only [Etharp.newEntry, setEntry, Function.update_of_ne hj] at hne heq
      exact hno j ⟨hne, heq⟩
    · simp only [Etharp.newEntry, setEntry, Function.update_self]
    · simp only [Etharp.newEntry, setEntry, Function.update_self]
      exact ⟨hq, trivial⟩

/-- What `etharp_find_entry` does to the table. -/
theorem Inv.findEntry (h : s.Inv late) (ipaddr : UInt32) (flags : FindFlag) :
    (flags = .findOnly ∧ (∀ j, ¬s.Has j ipaddr) ∧ s.findEntry ipaddr flags = (none, s)) ∨
      ∃ i s', s.findEntry ipaddr flags = (some i, s') ∧ s'.Inv late ∧ s'.Ready i ipaddr ∧ s'.history = s.history ∧
        ∀ j, (s'.arpTable j).state ≠ .empty → s'.arpTable j = s.arpTable j := by
  rcases findEntry_spec s ipaddr flags with
    ⟨i, hfind, hi⟩ | ⟨hno, ⟨hflag, hfind⟩ | ⟨-, i, -, ⟨hempty, hfind⟩ | ⟨-, hfind⟩⟩⟩
  · exact Or.inr ⟨i, s, hfind, h, ⟨h.apart hi, hi.2.symm, fun he => absurd he hi.1⟩, rfl, fun _ _ => rfl⟩
  · exact Or.inl ⟨hflag, hno, hfind⟩
  · obtain ⟨hinv, hready⟩ := h.newEntry hempty hno
    refine Or.inr ⟨i, _, hfind, hinv, hready, rfl, fun j hj => ?_⟩
    by_cases hji : j = i
    · subst hji
      simp only [Etharp.newEntry, setEntry, Function.update_self] at hj
      exact absurd hempty hj
    · exact Function.update_of_ne hji ..
  · have hfree := @Inv.freeEntry P s i late late h fun _ _ => Iff.rfl
    have hcleared : ((s.freeEntry i).arpTable i).state = .empty := by simp only [Etharp.freeEntry, setEntry, Function.update_self]; rfl
    have hnoFree (j) : ¬(s.freeEntry i).Has j ipaddr := by
      rintro ⟨hne, heq⟩
      by_cases hji : j = i
      · subst hji
        exact hne hcleared
      · simp only [Etharp.freeEntry, setEntry, Function.update_of_ne hji] at hne heq
        exact hno j ⟨hne, heq⟩
    obtain ⟨hinv, hready⟩ := hfree.newEntry hcleared hnoFree
    refine Or.inr ⟨i, _, hfind, hinv, hready, rfl, fun j hj => ?_⟩
    by_cases hji : j = i
    · subst hji
      simp only [Etharp.newEntry, setEntry, Function.update_self] at hj
      exact absurd hcleared hj
    · simp only [Etharp.newEntry, Etharp.freeEntry, setEntry, Function.update_of_ne hji]

theorem Inv.cached (h : s.Inv late) (i : Fin arpTableSize) : ({ s with etharpCachedEntry := i } : Etharp P).Inv late :=
  ⟨h.unique, h.pool, h.ok, h.order, h.timely⟩

/-! ### Messages of its own -/

/-- Nothing happened that concerns a host. -/
structure Quietly (s s' : Etharp P) : Prop where
  table : s'.arpTable = s.arpTable
  pool : s'.arpQueue = s.arpQueue
  history : ∃ evs, s'.history = s.history ++ evs ∧ ∀ hop, ∀ ev ∈ evs, ¬ev.Concerns hop

theorem Quietly.refl : s.Quietly s := ⟨rfl, rfl, [], (List.append_nil _).symm, fun _ _ hev => absurd hev List.not_mem_nil⟩

theorem raw_quietly (ethsrc ethdst hwsrc : EthAddr) (ipsrc : UInt32) (hwdst : EthAddr) (ipdst : UInt32) (opcode : UInt16) :
    s.Quietly (s.raw ethsrc ethdst hwsrc ipsrc hwdst ipdst opcode).2 := by
  unfold raw
  dsimp only
  split
  · refine ⟨rfl, rfl, _, rfl, fun hop ev hev => ?_⟩
    rw [List.mem_singleton.mp hev]
    exact id
  · exact ⟨rfl, rfl, [], (List.append_nil _).symm, fun _ _ hev => absurd hev List.not_mem_nil⟩

theorem Quietly.log_xmit {src dst : EthAddr} : s.Quietly (s.log [.xmit none q src dst]) := by
  refine ⟨rfl, rfl, _, rfl, fun hop ev hev => ?_⟩
  rw [List.mem_singleton.mp hev]
  exact id

theorem Inv.quietly (h : s.Inv late) (hq : s.Quietly s') : s'.Inv late := by
  obtain ⟨htable, hpool, evs, hhistory, hevs⟩ := hq
  refine ⟨?_, by rw [htable, hpool]; exact h.pool, ?_, ?_, ?_⟩
  · unfold Apart Has
    rw [htable]
    exact h.unique
  · intro i
    have hold := h.ok i
    obtain ⟨hgiven, hsent, hlast⟩ := @unconcerned P (s.arpTable i).ipaddr s.history _ (hevs _)
    rw [htable, hhistory]
    exact ⟨hold.waits, hold.short, hold.young, hold.pendingYoung, by rw [hlast]; exact hold.fresh,
      by rw [hgiven, hsent]; exact hold.order⟩
  · intro hop
    obtain ⟨hgiven, hsent, -⟩ := @unconcerned P hop s.history _ (hevs _)
    rw [hhistory, hgiven, hsent]
    exact h.order hop
  · rw [hhistory]
    refine h.timely.append fun ev hev hop q src dst heq => ?_
    rw [heq] at hev
    exact hevs hop _ hev rfl

/-! ### An announcement -/

theorem sendQueued_eq (src dst : EthAddr) (qs : List P) (s : Etharp P) :
    sendQueued hop src dst qs s = { s with
      arpQueue := s.arpQueue + qs.length
      history := s.history ++ qs.map fun q => .xmit (some hop) q src dst } := by
  induction qs generalizing s with
  | nil => simp [sendQueued]
  | cons q qs ih =>
    rw [sendQueued, ih]
    simp only [log, List.append_assoc, List.singleton_append, List.map_cons, List.length_cons]
    congr 1
    omega

theorem sentTo_sends {src dst : EthAddr} (qs : List P) :
    sentTo hop (qs.map fun q => ArpEvent.xmit (some hop) q src dst) = qs := by
  induction qs with
  | nil => rfl
  | cons q qs ih =>
    have hhead : sentTo hop [ArpEvent.xmit (some hop) q src dst] = [q] := by simp [sentTo]
    rw [List.map_cons, ← List.singleton_append, sentTo_append, ih, hhead]
    rfl

theorem givenTo_sends {src dst : EthAddr} {hop' : UInt32} (qs : List P) :
    givenTo hop' (qs.map fun q => ArpEvent.xmit (some hop) q src dst) = [] := by
  induction qs with
  | nil => rfl
  | cons q qs ih => exact ih

theorem lastAnnounced_sends {src dst : EthAddr} {hop' : UInt32} {es : List (ArpEvent P)} (qs : List P) :
    lastAnnounced hop' (es ++ qs.map fun q => .xmit (some hop) q src dst) = lastAnnounced hop' es := by
  induction qs generalizing es with
  | nil => simp
  | cons q qs ih =>
    rw [List.map_cons, ← List.singleton_append, ← List.append_assoc, ih, lastAnnounced_append]
    rfl

theorem findEntry_log (ipaddr : UInt32) (flags : FindFlag) :
    (s.log evs).findEntry ipaddr flags = ((s.findEntry ipaddr flags).1, (s.findEntry ipaddr flags).2.log evs) := by
  simp only [findEntry, log]
  cases sweep s.arpTable ipaddr (List.finRange arpTableSize) .init with
  | inl i => rfl
  | inr c =>
    by_cases hflags : flags = .findOnly
    · simp only [hflags, if_true]
    · simp only [hflags, if_false]
      cases c.empty with
      | some i => rfl
      | none => cases c.recycle <;> rfl

theorem Inv.updateArpEntry (h : s.Inv []) (netif : Netif) (ipaddr : UInt32) (ethaddr : EthAddr) (flags : FindFlag) :
    (s.updateArpEntry netif ipaddr ethaddr flags).2.Inv [] := by
  unfold Etharp.updateArpEntry
  split
  · exact h
  · have hlast : lastAnnounced ipaddr (s.history ++ [.announced ipaddr ethaddr]) = some (ethaddr, 0) := by
      simp [lastAnnounced_append, noteAnnounced]
    have htimely : Timely (s.history ++ [.announced ipaddr ethaddr]) := h.timely.snoc fun _ _ _ _ he => by cases he
    simp only [findEntry_log]
    rcases h.findEntry ipaddr flags with ⟨-, hno, hfind⟩ | ⟨i, s', hfind, hinv, hready, hhistory, -⟩
    · -- the host of no entry
      rw [hfind]
      have hgiven (hop) : givenTo hop (s.history ++ [ArpEvent.announced ipaddr ethaddr]) = givenTo hop s.history := by
        simp [givenTo]
      have hsent (hop) : sentTo hop (s.history ++ [ArpEvent.announced ipaddr ethaddr]) = sentTo hop s.history := by
        simp [sentTo]
      refine ⟨h.unique, h.pool, fun i => ?_, fun hop => ?_, htimely⟩
      · have hold := h.ok i
        refine ⟨hold.waits, hold.short, hold.young, hold.pendingYoung, fun hs => ?_, fun hne => ?_⟩
        · have hs : (s.arpTable i).state.isStable := hs
          have hne : ¬ipaddr = (s.arpTable i).ipaddr := fun heq =>
            hno i ⟨fun he => by simp [he, EtharpState.isStable] at hs, heq⟩
          show lastAnnounced (s.arpTable i).ipaddr (s.history ++ [.announced ipaddr ethaddr]) = _
          simp only [lastAnnounced_append, List.foldl_cons, List.foldl_nil, noteAnnounced, hne, if_false]
          exact hold.fresh hs
        · show (sentTo (s.arpTable i).ipaddr (s.history ++ [_]) ++ _).Sublist (givenTo _ (s.history ++ [_]))
          rw [hgiven, hsent]
          exact hold.order hne
      · show (sentTo hop (s.history ++ [_])).Sublist (givenTo hop (s.history ++ [_]))
        rw [hgiven, hsent]
        exact h.order hop
    · rw [hfind]
      simp only [sendQueued_eq]
      rw [← hhistory] at hlast htimely
      have hwaiting : (sentTo ipaddr s'.history ++ (s'.arpTable i).q).Sublist (givenTo ipaddr s'.history) := by
        by_cases he : (s'.arpTable i).state = .empty
        · rw [(hready.empty he).1, List.append_nil]
          exact hinv.order ipaddr
        · rw [← hready.ipaddr]
          exact (hinv.ok i).order he
      have hsent (hop) : sentTo hop (s'.history ++ [ArpEvent.announced ipaddr ethaddr] ++
          (s'.arpTable i).q.map fun q => .xmit (some ipaddr) q netif.hwaddr ethaddr) =
          sentTo hop s'.history ++ if ipaddr = hop then (s'.arpTable i).q else [] := by
        rw [sentTo_append, sentTo_append]
        by_cases hhop : ipaddr = hop
        · rw [if_pos hhop, ← hhop, sentTo_sends]
          simp [sentTo]
        · have hnone := (@unconcerned P hop [] ((s'.arpTable i).q.map fun q => .xmit (some ipaddr) q netif.hwaddr ethaddr)
            fun ev hev => by
              obtain ⟨q, -, rfl⟩ := List.mem_map.mp hev
              exact hhop).2.1
          rw [List.nil_append] at hnone
          rw [if_neg hhop, hnone]
          simp [sentTo]
      have hgiven (hop) : givenTo hop (s'.history ++ [ArpEvent.announced ipaddr ethaddr] ++
          (s'.arpTable i).q.map fun q => .xmit (some ipaddr) q netif.hwaddr ethaddr) = givenTo hop s'.history := by
        rw [givenTo_append, givenTo_append, givenTo_sends]
        simp [givenTo]
      refine hinv.at rfl (show _ = s'.history ++ (ArpEvent.announced ipaddr ethaddr :: (s'.arpTable i).q.map fun q =>
        .xmit (some ipaddr) q netif.hwaddr ethaddr) by simp [log, setEntry, hready.ipaddr]) ?_ (fun _ _ => Iff.rfl) ?_ ?_ ?_ ?_
      · simp [log, setEntry]
      · intro j hj hne
        have hapart : ¬ipaddr = (s'.arpTable j).ipaddr := fun heq => hready.apart j hj ⟨hne, heq⟩
        refine ⟨fun _ heq => hapart (hready.ipaddr.symm.trans heq.symm), fun ev hev => ?_⟩
        rcases List.mem_cons.mp hev with rfl | hev
        · exact hapart
        · obtain ⟨q, -, rfl⟩ := List.mem_map.mp hev
          exact hapart
      · refine ⟨fun hq => absurd rfl hq, Nat.zero_le _, Nat.zero_lt_succ _, fun hp => EtharpState.noConfusion hp, fun _ => ?_, fun _ => ?_⟩
        · simp only [log, setEntry, hready.ipaddr, lastAnnounced_sends]
          exact hlast
        · simp only [log, setEntry, hready.ipaddr, List.append_nil]
          rw [hsent, hgiven, if_pos rfl]
          exact hwaiting
      · intro hop
        simp only [log, setEntry, hready.ipaddr]
        rw [hsent, hgiven]
        split
        · rename_i heq
          rw [← heq]
          exact hwaiting
        · rw [List.append_nil]
          exact hinv.order hop
      · simp only [log, setEntry, hready.ipaddr]
        exact htimely.sends hlast (by omega) _

theorem Inv.input (h : s.Inv []) (netif : Netif) (hdr : EtharpHdr) : (s.input netif hdr).Inv [] := by
  unfold Etharp.input
  split
  · exact h
  · dsimp only
    split
    · exact (h.updateArpEntry ..).quietly (raw_quietly ..)
    · exact h.updateArpEntry ..

/-! ### A packet -/

/-- The packet `q` has been given for `hop`, and is still in nobody's hands. -/
structure Owed (s : Etharp P) (hop : UInt32) (q : P) : Prop where
  sent : (sentTo hop s.history ++ [q]).Sublist (givenTo hop s.history)
  waiting : ∀ i, s.Has i hop → (sentTo hop s.history ++ (s.arpTable i).q ++ [q]).Sublist (givenTo hop s.history)

theorem Inv.given (h : s.Inv late) (hop : UInt32) (q : P) :
    (s.log [.given hop q]).Inv late ∧ (s.log [.given hop q]).Owed hop q := by
  have hsent (hop') : sentTo hop' (s.history ++ [ArpEvent.given hop q]) = sentTo hop' s.history := by simp [sentTo]
  have hlast (hop') : lastAnnounced hop' (s.history ++ [ArpEvent.given hop q]) = lastAnnounced hop' s.history := by
    simp [lastAnnounced_append, noteAnnounced]
  have hgiven : givenTo hop (s.history ++ [ArpEvent.given hop q]) = givenTo hop s.history ++ [q] := by simp [givenTo]
  have hgrows (hop') : (givenTo hop' s.history).Sublist (givenTo hop' (s.history ++ [ArpEvent.given hop q])) := by
    rw [givenTo_append]
    exact List.sublist_append_left ..
  refine ⟨⟨h.unique, h.pool, fun i => ?_, fun hop' => ?_, h.timely.snoc fun _ _ _ _ he => (by cases he)⟩, ⟨?_, fun i hi => ?_⟩⟩
  · have hold := h.ok i
    refine ⟨hold.waits, hold.short, hold.young, hold.pendingYoung, fun hs => ?_, fun hne => ?_⟩
    · exact (hlast _).trans (hold.fresh hs)
    · exact (hsent _ ▸ hold.order hne).trans (hgrows _)
  · exact (hsent _ ▸ h.order hop').trans (hgrows _)
  · simp only [log, hsent, hgiven]
    exact (h.order hop).append (.refl _)
  · have horder := (h.ok i).order hi.1
    have hip : (s.arpTable i).ipaddr = hop := hi.2.symm
    rw [hip] at horder
    simp only [log, hsent, hgiven]
    exact horder.append (.refl _)

theorem Owed.mono (h : s.Owed hop q) (hsent : sentTo hop s'.history = sentTo hop s.history)
    (hgiven : givenTo hop s'.history = givenTo hop s.history)
    (htable : ∀ i, s'.Has i hop → s.Has i hop ∧ (s'.arpTable i).q = (s.arpTable i).q ∨ (s'.arpTable i).q = []) :
    s'.Owed hop q where
  sent := by
    rw [hsent, hgiven]
    exact h.sent
  waiting i hi := by
    rw [hsent, hgiven]
    rcases htable i hi with ⟨hi, hq⟩ | hq
    · rw [hq]
      exact h.waiting i hi
    · rw [hq, List.append_nil]
      exact h.sent

theorem Owed.quietly (h : s.Owed hop q) (hq : s.Quietly s') : s'.Owed hop q := by
  obtain ⟨htable, -, evs, hhistory, hevs⟩ := hq
  obtain ⟨hgiven, hsent, -⟩ := @unconcerned P hop s.history _ (hevs hop)
  refine h.mono (by rw [hhistory, hsent]) (by rw [hhistory, hgiven]) fun i hi => Or.inl ?_
  unfold Has at hi ⊢
  rw [htable] at hi ⊢
  exact ⟨hi, rfl⟩

/-- An entry in use that keeps its address and its queue. -/
theorem Owed.setEntry (h : s.Owed hop q) (hne : (s.arpTable i).state ≠ .empty ∨ (s.arpTable i).q = [])
    (hip : e.ipaddr = (s.arpTable i).ipaddr) (hq : e.q = (s.arpTable i).q) : (s.setEntry i e).Owed hop q := by
  refine h.mono rfl rfl fun j hj => ?_
  unfold Has Etharp.setEntry at hj
  simp only [Etharp.setEntry]
  by_cases hji : j = i
  · subst hji
    simp only [Function.update_self] at hj ⊢
    rcases hne with hne | hnil
    · exact Or.inl ⟨⟨hne, hj.2.trans hip⟩, hq⟩
    · exact Or.inr (hq.trans hnil)
  · simp only [Function.update_of_ne hji] at hj ⊢
    exact Or.inl ⟨hj, trivial⟩

/-- A stable entry sends the packet. -/
theorem Inv.sent (h : s.Inv []) (howed : s.Owed hop q) (hi : s.Has i hop) (hstable : (s.arpTable i).state.isStable)
    (src : EthAddr) : (s.log [.xmit (some hop) q src (s.arpTable i).ethaddr]).Inv [] := by
  have hpending : (s.arpTable i).state ≠ .pending := fun he => by simp [he, EtharpState.isStable] at hstable
  have hempty := h.no_queue hpending
  have hgiven (hop') : givenTo hop' (s.history ++ [ArpEvent.xmit (some hop) q src (s.arpTable i).ethaddr]) =
      givenTo hop' s.history := by simp [givenTo]
  have hsent : sentTo hop (s.history ++ [ArpEvent.xmit (some hop) q src (s.arpTable i).ethaddr]) =
      sentTo hop s.history ++ [q] := by simp [sentTo]
  have hfresh := (h.ok i).fresh hstable
  rw [← hi.2] at hfresh
  have hlog : (s.log [.xmit (some hop) q src (s.arpTable i).ethaddr]).arpTable =
      Function.update s.arpTable i (s.arpTable i) := (Function.update_eq_self ..).symm
  refine h.at hlog rfl rfl (fun _ _ => Iff.rfl) (fun j hj hne => ?_) ?_ (fun hop' => ?_) ?_
  · have hapart : ¬hop = (s.arpTable j).ipaddr := fun heq => h.apart hi j hj ⟨hne, heq⟩
    refine ⟨fun _ heq => hapart (hi.2.trans heq.symm), fun ev hev => ?_⟩
    rw [List.mem_singleton.mp hev]
    exact hapart
  · have hold := h.ok i
    refine ⟨hold.waits, hold.short, hold.young, hold.pendingYoung, fun _ => ?_, fun _ => ?_⟩
    · rw [← hi.2]
      simp only [log, lastAnnounced_append]
      exact hfresh
    · rw [← hi.2]
      simp only [log, hgiven, hsent, hempty, List.append_nil]
      exact howed.sent
  · simp only [log, hgiven]
    by_cases heq : hop = hop'
    · rw [← heq, hsent]
      exact howed.sent
    · have : sentTo hop' [ArpEvent.xmit (some hop) q src (s.arpTable i).ethaddr] = [] := by simp [sentTo, heq]
      rw [sentTo_append, this, List.append_nil]
      exact h.order hop'
  · refine h.timely.snoc fun _ _ _ _ he => ?_
    cases he
    exact ⟨_, (h.ok i).young, hfresh⟩

theorem Inv.outputToArpIndex (h : s.Inv []) (howed : s.Owed hop q) (hi : s.Has i hop)
    (hstable : (s.arpTable i).state.isStable) (netif : Netif) : (s.outputToArpIndex netif q i).2.Inv [] := by
  obtain ⟨hne, rfl⟩ := hi
  unfold Etharp.outputToArpIndex
  dsimp only
  generalize hr : (if (s.arpTable i).state = .stable ∧ (s.arpTable i).ctime ≥ arpAgeRerequestUsedBroadcast then
      s.request netif (s.arpTable i).ipaddr
    else if (s.arpTable i).state = .stable ∧ (s.arpTable i).ctime ≥ arpAgeRerequestUsedUnicast then
      s.requestDst netif (s.arpTable i).ipaddr (s.arpTable i).ethaddr
    else (false, s)) = r
  have hquiet : s.Quietly r.2 := by
    rw [← hr]
    split
    · exact raw_quietly ..
    · split
      · exact raw_quietly ..
      · exact .refl
  have hinv := h.quietly hquiet
  have howed := howed.quietly hquiet
  have hentry : r.2.arpTable i = s.arpTable i := by rw [hquiet.table]
  by_cases hasked : r.1
  · rw [if_pos hasked]
    have hold := hinv.ok i
    rw [hentry] at hold
    have hpending : (s.arpTable i).state ≠ .pending := fun he => by simp [he, EtharpState.isStable] at hstable
    have hset : (r.2.setEntry i { s.arpTable i with state := .stableRerequesting1 }).Inv [] := by
      refine hinv.replace (fun _ _ => Iff.rfl) (by rw [hentry]) (fun _ => ?_) ?_
      · have := h.apart ⟨hne, rfl⟩
        unfold Apart Has at this ⊢
        rwa [hquiet.table]
      · exact ⟨fun hq => absurd (h.no_queue hpending) hq, hold.short, hold.young, fun he => EtharpState.noConfusion he,
          fun _ => hold.fresh hstable, fun _ => hold.order hne⟩
    have hself : (r.2.setEntry i { s.arpTable i with state := .stableRerequesting1 }).arpTable i =
        { s.arpTable i with state := .stableRerequesting1 } := Function.update_self ..
    have hsend := hset.sent
      (howed.setEntry (Or.inl (by rw [hentry]; exact hne)) (by rw [hentry]) (by rw [hentry]))
      (by unfold Has; rw [hself]; exact ⟨by simp, rfl⟩) (by rw [hself]; rfl) netif.hwaddr
    rw [hself] at hsend
    exact hsend
  · rw [if_neg hasked]
    have hsend := hinv.sent howed (show r.2.Has i (s.arpTable i).ipaddr by unfold Has; rw [hentry]; exact ⟨hne, rfl⟩) (by rw [hentry]; exact hstable)
      netif.hwaddr
    rwa [hentry] at hsend

/-- A pending entry keeps the packet until its host answers. -/
theorem Inv.enqueue (h : s.Inv []) (howed : s.Owed hop q) (hi : s.Has i hop) (hpending : (s.arpTable i).state = .pending) :
    (s.enqueue i q).2.Inv [] := by
  have hold := h.ok i
  have hapart := h.apart hi
  have hwaiting := howed.waiting i hi
  rw [hi.2] at hwaiting hapart
  rw [List.append_assoc] at hwaiting
  unfold Etharp.enqueue
  split
  · exact h
  · rename_i hroom
    dsimp only
    split
    · rename_i hfull
      have hlen : ((s.arpTable i).q ++ [q]).tail.length = (s.arpTable i).q.length := by simp
      refine h.replace (fun _ _ => Iff.rfl) hlen (fun _ => hapart) ?_
      exact ⟨fun _ => hpending, hlen ▸ hold.short, hold.young, hold.pendingYoung,
        fun hs => by simp [hpending, EtharpState.isStable] at hs,
        fun _ => ((List.tail_sublist _).append_left _).trans hwaiting⟩
    · rename_i hspace
      refine h.at rfl (List.append_nil _).symm ?_ (fun _ _ => Iff.rfl) (fun j hj hne =>
        ⟨fun _ heq => hapart j hj ⟨hne, heq.symm⟩, fun _ hev => absurd hev List.not_mem_nil⟩) ?_ h.order h.timely
      · simp only [List.length_append, List.length_singleton]
        omega
      · refine ⟨fun _ => hpending, ?_, hold.young, hold.pendingYoung, fun hs => by simp [hpending, EtharpState.isStable] at hs,
          fun _ => hwaiting⟩
        simp only [List.length_append, List.length_singleton]
        omega

theorem Inv.query (h : s.Inv []) {q : Option P} (howed : ∀ p, q = some p → s.Owed hop p) (netif : Netif) (taken : Bool) :
    (s.query netif hop q taken).2.Inv [] := by
  unfold Etharp.query
  split
  · exact h
  · rcases h.findEntry hop .tryHard with ⟨hflag, -⟩ | ⟨i, s₁, hfind, h₁, hready, hhistory, hkept⟩
    · cases hflag
    · have howed₁ (p) (hp : q = some p) : s₁.Owed hop p := by
        refine (howed p hp).mono (by rw [hhistory]) (by rw [hhistory]) fun j hj => Or.inl ?_
        have hsame := hkept j hj.1
        refine ⟨?_, by rw [hsame]⟩
        unfold Has at hj ⊢
        rwa [hsame] at hj
      rw [hfind]
      dsimp only
      -- a fresh entry is pending from now on
      generalize hs₂ : (if decide ((s₁.arpTable i).state = .empty) = true then
        s₁.setEntry i { s₁.arpTable i with state := .pending } else s₁) = s₂
      have hfresh : s₂.Inv [] ∧ s₂.Has i hop ∧ ∀ p, q = some p → s₂.Owed hop p := by
        rw [← hs₂]
        split
        · rename_i hnew
          have hnew := of_decide_eq_true hnew
          obtain ⟨hq, hctime⟩ := hready.empty hnew
          have horder := h₁.order hop
          refine ⟨h₁.replace (fun _ _ => Iff.rfl) rfl (fun _ => ?_) ?_, ?_, fun p hp =>
            (howed₁ p hp).setEntry (Or.inr hq) rfl rfl⟩
          · exact hready.ipaddr ▸ hready.apart
          · refine ⟨fun _ => rfl, (h₁.ok i).short, ?_, fun _ => ?_, fun hs => (by cases hs), fun _ => ?_⟩
            · simp [hctime]
            · simp [hctime]
            · simp only [hready.ipaddr, hq, List.append_nil]
              exact horder
          · simp only [Has, setEntry, Function.update_self]
            exact ⟨by simp, hready.ipaddr.symm⟩
        · rename_i hold
          exact ⟨h₁, ⟨fun he => hold (decide_eq_true he), hready.ipaddr.symm⟩, howed₁⟩
      obtain ⟨h₂, hi₂, howed₂⟩ := hfresh
      generalize hr : (if decide ((s₁.arpTable i).state = .empty) = true ∨ q.isNone = true then s₂.request netif hop
        else (false, s₂)) = r
      have hquiet : s₂.Quietly r.2 := by
        rw [← hr]
        split
        · exact raw_quietly ..
        · exact .refl
      have h₃ := h₂.quietly hquiet
      have hi₃ : r.2.Has i hop := by
        unfold Has
        rw [hquiet.table]
        exact hi₂
      have hentry : r.2.arpTable i = s₂.arpTable i := by rw [hquiet.table]
      generalize hs₄ : (if r.1 = true ∧ (s₂.arpTable i).state = .pending ∧ ¬decide ((s₁.arpTable i).state = .empty) = true
        then r.2.setEntry i { s₂.arpTable i with ctime := 0 } else r.2) = s₄
      have hagain : s₄.Inv [] ∧ s₄.Has i hop ∧ ∀ p, q = some p → s₄.Owed hop p := by
        rw [← hs₄]
        split
        · rename_i hpending
          have hold := h₃.ok i
          rw [hentry] at hold
          refine ⟨h₃.replace (fun _ _ => Iff.rfl) (by rw [hentry]) (fun _ => ?_) ?_, ?_, fun p hp =>
            ((howed₂ p hp).quietly hquiet).setEntry (Or.inl hi₃.1) (by rw [hentry]) (by rw [hentry])⟩
          · exact hi₂.2 ▸ h₃.apart hi₃
          · exact ⟨hold.waits, hold.short, by simp, fun _ => by simp,
              fun hs => by simp [hpending.2.1, EtharpState.isStable] at hs, hold.order⟩
          · simp only [Has, setEntry, Function.update_self]
            exact hi₂
        · exact ⟨h₃, hi₃, fun p hp => (howed₂ p hp).quietly hquiet⟩
      obtain ⟨h₄, hi₄, howed₄⟩ := hagain
      cases q with
      | none => exact h₄
      | some q =>
        dsimp only
        split
        · rename_i hstable
          exact (h₄.sent (howed₄ q rfl) hi₄ hstable netif.hwaddr).cached i
        · rename_i hunstable
          split
          · refine h₄.enqueue (howed₄ q rfl) hi₄ ?_
            cases hstate : (s₄.arpTable i).state with
            | empty => exact absurd hstate hi₄.1
            | pending => rfl
            | stable | stableRerequesting1 | stableRerequesting2 => simp [hstate, EtharpState.isStable] at hunstable
          · exact h₄

theorem Inv.output (h : s.Inv []) (netif : Netif) (q : P) (ipaddr : UInt32) (taken : Bool) :
    (s.output netif q ipaddr taken).2.Inv [] := by
  unfold Etharp.output
  split
  · exact h.quietly .log_xmit
  · split
    · exact h.quietly .log_xmit
    · split
      · exact h
      · rename_i dstAddr _
        obtain ⟨hgiven, howed⟩ := h.given dstAddr q
        have hhas {j} (hj : ((s.log [.given dstAddr q]).arpTable j).state.isStable = true ∧
            dstAddr = ((s.log [.given dstAddr q]).arpTable j).ipaddr) : (s.log [.given dstAddr q]).Has j dstAddr :=
          ⟨fun he => by simp [he, EtharpState.isStable] at hj, hj.2⟩
        dsimp only
        split
        · rename_i hcached
          exact hgiven.outputToArpIndex howed (hhas hcached) hcached.1 netif
        · split
          · rename_i j hj
            have hj := List.find?_some hj
            rw [decide_eq_true_eq] at hj
            have howed : ({ s.log [.given dstAddr q] with etharpCachedEntry := j } : Etharp P).Owed dstAddr q :=
              ⟨howed.sent, howed.waiting⟩
            exact (hgiven.cached j).outputToArpIndex howed (hhas hj) hj.1 netif
          · exact hgiven.query (fun p hp => by cases hp; exact howed) netif taken

/-! ### A second passes -/

theorem Inv.tick (h : s.Inv []) : (s.log [.tick]).Inv (List.finRange arpTableSize) := by
  have hsent (hop) : sentTo hop (s.history ++ [ArpEvent.tick]) = sentTo hop s.history := by simp [sentTo]
  have hgiven (hop) : givenTo hop (s.history ++ [ArpEvent.tick]) = givenTo hop s.history := by simp [givenTo]
  refine ⟨h.unique, h.pool, fun i => ?_, fun hop => ?_, h.timely.snoc fun _ _ _ _ he => (by cases he)⟩
  · have hold := h.ok i
    refine ⟨hold.waits, hold.short, hold.young, hold.pendingYoung, fun hs => ?_, fun hne => ?_⟩
    · have hlate : lateness (List.finRange arpTableSize) i = 1 := if_pos (List.mem_finRange i)
      have hnone : lateness [] i = 0 := if_neg List.not_mem_nil
      have hfresh := hold.fresh hs
      simp only [log, lastAnnounced_append, List.foldl_cons, List.foldl_nil, noteAnnounced]
      rw [hfresh, hlate, hnone]
      rfl
    · simp only [log, hsent, hgiven]
      exact hold.order hne
  · simp only [log, hsent, hgiven]
    exact h.order hop

theorem setEntry_setEntry (e' : EtharpEntry P) : (s.setEntry i e).setEntry i e' = s.setEntry i e' := by
  simp only [setEntry, Function.update_idem]

theorem freeEntry_setEntry (hq : e.q = (s.arpTable i).q) : (s.setEntry i e).freeEntry i = s.freeEntry i := by
  simp only [freeEntry, setEntry, Function.update_idem, Function.update_self, hq]

/-- The timer counts the tick of one entry. -/
theorem Inv.tmrEntry {is : List (Fin arpTableSize)} (h : s.Inv (i :: is)) (hi : i ∉ is) (netif : Netif) :
    (tmrEntry netif s i).Inv is := by
  have hold := h.ok i
  have hapart := h.unique i
  have hlate : ∀ j ≠ i, j ∈ is ↔ j ∈ i :: is := fun j hj => by simp [hj]
  have hone : lateness (i :: is) i = 1 := if_pos List.mem_cons_self
  have hzero : lateness is i = 0 := if_neg hi
  have hyoung := hold.young
  have hctime : ((s.arpTable i).ctime + 1).toNat = (s.arpTable i).ctime.toNat + 1 := by
    rw [UInt16.toNat_add]
    exact Nat.mod_eq_of_lt (by simp; omega)
  rw [hone] at hold
  unfold Etharp.tmrEntry
  dsimp only
  by_cases hempty : (s.arpTable i).state = .empty
  · rw [hempty]
    have hsame : s.setEntry i (s.arpTable i) = s := by simp only [setEntry, Function.update_eq_self]
    rw [← hsame]
    exact h.replace hlate rfl (fun he => absurd hempty he) ⟨hold.waits, hold.short, hold.young, hold.pendingYoung,
      fun hs => by simp [hempty, EtharpState.isStable] at hs, fun he => absurd hempty he⟩
  · have hapart := hapart.resolve_right hempty
    -- The entry with its new age, in any state of the same kind.
    have haged (st : EtharpState) (hkind : st.isStable = (s.arpTable i).state.isStable)
        (hpending : st = .pending ↔ (s.arpTable i).state = .pending) (hlt : (s.arpTable i).ctime.toNat + 1 < 300)
        (hlt5 : st = .pending → (s.arpTable i).ctime.toNat + 1 < 5) :
        (s.setEntry i { s.arpTable i with ctime := (s.arpTable i).ctime + 1, state := st }).Inv is := by
      refine h.replace hlate rfl (fun _ => hapart) ⟨fun hq => hpending.mpr (hold.waits hq), hold.short, ?_, fun hp => ?_,
        fun hs => ?_, fun _ => hold.order hempty⟩
      · rw [hctime]
        exact hlt
      · rw [hctime]
        exact hlt5 hp
      · rw [hctime, hzero, Nat.add_zero]
        exact hold.fresh (hkind ▸ hs)
    have hexpired (st : EtharpState) :
        ((s.setEntry i { s.arpTable i with ctime := (s.arpTable i).ctime + 1, state := st }).freeEntry i).Inv is := by
      rw [@freeEntry_setEntry P s i { s.arpTable i with ctime := (s.arpTable i).ctime + 1, state := st } rfl]
      exact h.freeEntry hlate
    have hmax : ¬(s.arpTable i).ctime + 1 ≥ arpMaxage → (s.arpTable i).ctime.toNat + 1 < 300 := by
      rw [ge_iff_le, UInt16.le_iff_toNat_le, hctime]
      exact Nat.not_le.mp
    have hpendingMax : ¬(s.arpTable i).ctime + 1 ≥ arpMaxpending → (s.arpTable i).ctime.toNat + 1 < 5 := by
      rw [ge_iff_le, UInt16.le_iff_toNat_le, hctime]
      exact Nat.not_le.mp
    cases hstate : (s.arpTable i).state with
    | empty => exact absurd hstate hempty
    | pending =>
      dsimp only
      split
      · exact hexpired _
      · rename_i hkeep
        rw [not_or, not_and] at hkeep
        have hsame := haged .pending (by rw [hstate]) (by rw [hstate]) (hmax hkeep.1) fun _ => hpendingMax (hkeep.2 rfl)
        exact hsame.quietly (raw_quietly ..)
    | stable =>
      dsimp only
      split
      · exact hexpired _
      · rename_i hkeep
        rw [not_or] at hkeep
        exact haged .stable (by rw [hstate]) (by rw [hstate]) (hmax hkeep.1) fun hp => absurd hp (by decide)
    | stableRerequesting1 =>
      dsimp only
      split
      · exact hexpired _
      · rename_i hkeep
        rw [not_or] at hkeep
        rw [setEntry_setEntry]
        exact haged .stableRerequesting2 (by rw [hstate]; rfl) (by rw [hstate]; decide) (hmax hkeep.1) fun hp => absurd hp (by decide)
    | stableRerequesting2 =>
      dsimp only
      split
      · exact hexpired _
      · rename_i hkeep
        rw [not_or] at hkeep
        rw [setEntry_setEntry]
        exact haged .stable (by rw [hstate]; rfl) (by rw [hstate]; decide) (hmax hkeep.1) fun hp => absurd hp (by decide)

theorem Inv.tmr (h : s.Inv []) (netif : Netif) : (s.tmr netif).Inv [] := by
  -- The entries that the loop has not come to yet have the tick still to count.
  have hloop (is : List (Fin arpTableSize)) (hnodup : is.Nodup) (s : Etharp P) (h : s.Inv is) :
      (is.foldl (Etharp.tmrEntry netif) s).Inv [] := by
    induction is generalizing s with
    | nil => exact h
    | cons i is ih =>
      obtain ⟨hi, hnodup⟩ := List.nodup_cons.mp hnodup
      exact ih hnodup _ (h.tmrEntry hi netif)
  exact hloop _ (List.nodup_finRange _) _ h.tick

theorem Inv.cleanupNetif (h : s.Inv []) : s.cleanupNetif.Inv [] := by
  unfold Etharp.cleanupNetif
  generalize List.finRange arpTableSize = is
  induction is generalizing s with
  | nil => exact h
  | cons i is ih =>
    rw [List.foldl_cons]
    split
    · exact ih (h.freeEntry fun _ _ => Iff.rfl)
    · exact ih h

/-! ### Every run -/

theorem Inv.init (ram : List Bool) : (init ram : Etharp P).Inv [] where
  unique _ := Or.inr rfl
  pool := by simp [Etharp.init, EtharpEntry.cleared]
  ok _ := ⟨fun hq => absurd rfl hq, Nat.zero_le _, Nat.zero_lt_succ _, fun hp => (by cases hp), fun hs => (by cases hs),
    fun hne => absurd rfl hne⟩
  order _ := .refl _
  timely pre hop q src dst post heq := by simp [Etharp.init] at heq

theorem Inv.step {a : Action P} (h : s.Inv []) (hstep : step s a = some s') : s'.Inv [] := by
  cases a with
  | input netif hdr =>
    obtain rfl : s.input netif hdr = s' := Option.some.inj hstep
    exact h.input netif hdr
  | output netif q ipaddr taken =>
    obtain rfl : (s.output netif q ipaddr taken).2 = s' := Option.some.inj hstep
    exact h.output netif q ipaddr taken
  | query netif ipaddr =>
    obtain rfl : (s.query netif ipaddr none true).2 = s' := Option.some.inj hstep
    exact h.query (fun p hp => (Option.some_ne_none p hp.symm).elim) netif true
  | request netif ipaddr =>
    obtain rfl : (s.request netif ipaddr).2 = s' := Option.some.inj hstep
    exact h.quietly (raw_quietly ..)
  | tmr netif =>
    obtain rfl : s.tmr netif = s' := Option.some.inj hstep
    exact h.tmr netif
  | cleanup =>
    obtain rfl : s.cleanupNetif = s' := Option.some.inj hstep
    exact h.cleanupNetif
  | memory ram =>
    obtain rfl : ({ s with ram := ram } : Etharp P) = s' := Option.some.inj hstep
    exact ⟨h.unique, h.pool, h.ok, h.order, h.timely⟩

/-- The states that ARP reaches, whatever is called when. -/
def Reachable (ram : List Bool) (s : Etharp P) : Prop := Run.Reaches step (fun _ _ => True) (init ram) s

theorem Reachable.inv {ram : List Bool} (h : Reachable ram s) : s.Inv [] :=
  Run.Reaches.invariant (P := fun s => s.Inv []) h (.init ram) fun _ _ _ _ hinv _ hstep => hinv.step hstep

/-- The packets that wait for the answer of a host. -/
def waitingFor (s : Etharp P) (hop : UInt32) : List P :=
  match (List.finRange arpTableSize).find? fun i => (s.arpTable i).state ≠ .empty ∧ hop = (s.arpTable i).ipaddr with
  | some i => (s.arpTable i).q
  | none => []

/-- Packets for one next hop are sent in the order they were given, each at most once, and those that wait come
    after them; each goes to the Ethernet address that the next hop announced last, less than 300 s before. -/
theorem packets_in_order {ram : List Bool} (h : Reachable ram s) :
    (∀ hop, (sentTo hop s.history ++ s.waitingFor hop).Sublist (givenTo hop s.history)) ∧ Timely s.history := by
  refine ⟨fun hop => ?_, h.inv.timely⟩
  unfold waitingFor
  split
  · rename_i i hi
    have hi := List.find?_some hi
    rw [decide_eq_true_eq] at hi
    have horder := (h.inv.ok i).order hi.1
    rwa [← hi.2] at horder
  · rw [List.append_nil]
    exact h.inv.order hop

/-- An interface with the address 192.168.0.2. -/
def exampleIf : Netif := ⟨0x0200a8c0, 0x00ffffff, 0x0100a8c0, 1500, ⟨2, 0, 0, 0, 0, 1⟩, 1, true, true, true, true⟩

/-- Two packets for 192.168.0.3, and its answer. -/
def exampleRun : List (Action Nat) :=
  [.output exampleIf 7 0x0300a8c0 true, .output exampleIf 8 0x0300a8c0 true, .input exampleIf
    ⟨0x0100, 0x0008, 6, 4, 0x0200, ⟨2, 0, 0, 0, 0, 2⟩, 0x0300a8c0, ⟨2, 0, 0, 0, 0, 1⟩, 0x0200a8c0⟩]

theorem reaches_exampleRun : ∃ s, Run.exec step (init [true]) exampleRun = some s ∧ Reachable [true] s ∧
    givenTo 0x0300a8c0 s.history = [7, 8] ∧ sentTo 0x0300a8c0 s.history = [7, 8] := by
  obtain ⟨s, hexec, hrecord⟩ : ∃ s, Run.exec step (init [true]) exampleRun = some s ∧
      givenTo 0x0300a8c0 s.history = [7, 8] ∧ sentTo 0x0300a8c0 s.history = [7, 8] := ⟨_, rfl, rfl, rfl⟩
  exact ⟨s, hexec, Run.Reaches.of_exec hexec, hrecord⟩

theorem packets_in_order_two : ∃ s, Run.exec step (init [true]) exampleRun = some s ∧
    sentTo 0x0300a8c0 s.history = [7, 8] ∧
    (sentTo 0x0300a8c0 s.history ++ s.waitingFor 0x0300a8c0).Sublist (givenTo 0x0300a8c0 s.history) ∧ Timely s.history := by
  obtain ⟨s, hexec, hreach, -, hsent⟩ := reaches_exampleRun
  obtain ⟨horder, htimely⟩ := packets_in_order hreach
  exact ⟨s, hexec, hsent, horder _, htimely⟩

/-- What the table is like, whatever was called when: an address has one entry; packets wait in pending entries
    only (what `etharp_find_entry` asserts), three at most for a host, and with those left in the pool they are
    all of its elements; no entry is older than it may get. -/
theorem table_wellFormed {ram : List Bool} (h : Reachable ram s) :
    (∀ i j hop, s.Has i hop → s.Has j hop → i = j) ∧
      (∀ i, (s.arpTable i).q ≠ [] → (s.arpTable i).state = .pending ∧ (s.arpTable i).q.length ≤ arpQueueLen) ∧
      s.arpQueue + ∑ i, (s.arpTable i).q.length = memNumArpQueue ∧
      ∀ i, (s.arpTable i).ctime < arpMaxage ∧ ((s.arpTable i).state = .pending → (s.arpTable i).ctime < arpMaxpending) := by
  have hinv := h.inv
  refine ⟨fun i j hop hi hj => ?_, fun i hq => ⟨(hinv.ok i).waits hq, (hinv.ok i).short⟩, hinv.pool, fun i =>
    ⟨UInt16.lt_iff_toNat_lt.mpr (hinv.ok i).young, fun hp => UInt16.lt_iff_toNat_lt.mpr ((hinv.ok i).pendingYoung hp)⟩⟩
  by_contra hne
  exact hinv.apart hi j (Ne.symm hne) hj

theorem table_wellFormed_two : ∃ s, Run.exec step (init [true]) exampleRun = some s ∧
    (∀ i j hop, s.Has i hop → s.Has j hop → i = j) ∧
    (∀ i, (s.arpTable i).q ≠ [] → (s.arpTable i).state = .pending ∧ (s.arpTable i).q.length ≤ arpQueueLen) ∧
    s.arpQueue + ∑ i, (s.arpTable i).q.length = memNumArpQueue ∧
    ∀ i, (s.arpTable i).ctime < arpMaxage ∧ ((s.arpTable i).state = .pending → (s.arpTable i).ctime < arpMaxpending) := by
  obtain ⟨s, hexec, hreach, -⟩ := reaches_exampleRun
  exact ⟨s, hexec, table_wellFormed hreach⟩

end Etharp

end SpeakingClock.Net
