import SpeakingClock.Net.Link
import SpeakingClock.Theorems.Net.Arp

/-! Several hosts on a link. What a host says about itself is true, so that what is announced anywhere is, and
    a packet goes to the Ethernet address of its next hop whatever was lost, repeated or reordered. -/

namespace SpeakingClock.Net
variable {P : Type}

namespace Etharp
variable {s s' t : Etharp P} {C : ArpEvent P → Prop}

/-! ### What a function records -/

/-- What was recorded between two states. -/
def Grows (C : ArpEvent P → Prop) (s s' : Etharp P) : Prop := ∃ evs, s'.history = s.history ++ evs ∧ ∀ ev ∈ evs, C ev

theorem Grows.of_eq (h : s'.history = s.history) : Grows C s s' :=
  ⟨[], h.trans (List.append_nil _).symm, fun _ hev => absurd hev List.not_mem_nil⟩

theorem Grows.refl : Grows C s s := .of_eq rfl

theorem Grows.trans (h : Grows C s s') (h' : Grows C s' t) : Grows C s t := by
  obtain ⟨evs, hs, hevs⟩ := h
  obtain ⟨evs', hs', hevs'⟩ := h'
  refine ⟨evs ++ evs', by rw [hs', hs, List.append_assoc], fun ev hev => ?_⟩
  rcases List.mem_append.mp hev with hev | hev
  · exact hevs ev hev
  · exact hevs' ev hev

theorem Grows.log {ev : ArpEvent P} (h : C ev) : Grows C s (s.log [ev]) :=
  ⟨[ev], rfl, fun ev' hev => by rwa [List.mem_singleton.mp hev]⟩

/-- A host speaks for itself: its messages and frames have its own addresses, and what it takes note of is what
    it has heard. -/
def Own (netif : Netif) (heard : UInt32 → EthAddr → Prop) : ArpEvent P → Prop
  | .arp hdr src _ => hdr.sipaddr = netif.ipAddr ∧ hdr.shwaddr = netif.hwaddr ∧ src = netif.hwaddr
  | .announced ipaddr ethaddr => heard ipaddr ethaddr
  | .xmit _ _ src _ => src = netif.hwaddr
  | .given .. | .tick => True

variable {netif : Netif} {heard : UInt32 → EthAddr → Prop}

theorem grows_findEntry (ipaddr : UInt32) (flags : FindFlag) : Grows C s (s.findEntry ipaddr flags).2 := by
  refine .of_eq ?_
  rcases findEntry_spec s ipaddr flags with ⟨i, hfind, -⟩ | ⟨-, ⟨-, hfind⟩ | ⟨-, i, -, ⟨-, hfind⟩ | ⟨-, hfind⟩⟩⟩ <;>
    rw [hfind] <;> rfl

theorem grows_raw (ethdst : EthAddr) (hwdst : EthAddr) (ipdst : UInt32) (opcode : UInt16) :
    Grows (Own netif heard) s (s.raw netif.hwaddr ethdst netif.hwaddr netif.ipAddr hwdst ipdst opcode).2 := by
  unfold raw
  dsimp only
  split
  · exact (Grows.of_eq rfl).trans (.log ⟨rfl, rfl, rfl⟩)
  · exact .of_eq rfl

theorem grows_updateArpEntry {ipaddr : UInt32} {ethaddr : EthAddr} (hheard : heard ipaddr ethaddr) (flags : FindFlag) :
    Grows (Own netif heard) s (s.updateArpEntry netif ipaddr ethaddr flags).2 := by
  unfold updateArpEntry
  split
  · exact .refl
  · have hfind := @grows_findEntry P (s.log [.announced ipaddr ethaddr]) (Own netif heard) ipaddr flags
    have hlog : Grows (Own netif heard) s (s.log [.announced ipaddr ethaddr]) := .log hheard
    dsimp only
    split
    · rename_i heq
      rw [heq] at hfind
      exact hlog.trans hfind
    · rename_i i s₁ heq
      rw [heq] at hfind
      refine (hlog.trans hfind).trans ?_
      rw [sendQueued_eq]
      refine ⟨_, rfl, fun ev hev => ?_⟩
      obtain ⟨q, -, rfl⟩ := List.mem_map.mp hev
      exact rfl

theorem grows_input (hdr : EtharpHdr) (hheard : heard hdr.sipaddr hdr.shwaddr) :
    Grows (Own netif heard) s (s.input netif hdr) := by
  unfold input
  split
  · exact .refl
  · dsimp only
    split
    · exact (grows_updateArpEntry hheard _).trans (grows_raw ..)
    · exact grows_updateArpEntry hheard _

theorem grows_outputToArpIndex (q : P) (i : Fin arpTableSize) :
    Grows (Own netif heard) s (s.outputToArpIndex netif q i).2 := by
  unfold outputToArpIndex
  dsimp only
  generalize hr : (if (s.arpTable i).state = .stable ∧ (s.arpTable i).ctime ≥ arpAgeRerequestUsedBroadcast then
      s.request netif (s.arpTable i).ipaddr
    else if (s.arpTable i).state = .stable ∧ (s.arpTable i).ctime ≥ arpAgeRerequestUsedUnicast then
      s.requestDst netif (s.arpTable i).ipaddr (s.arpTable i).ethaddr
    else (false, s)) = r
  have hasked : Grows (Own netif heard) s r.2 := by
    rw [← hr]
    split
    · exact grows_raw ..
    · split
      · exact grows_raw ..
      · exact .refl
  refine (hasked.trans ?_).trans (.log rfl)
  split
  · exact .of_eq rfl
  · exact .refl

theorem grows_query (ipaddr : UInt32) (q : Option P) (taken : Bool) :
    Grows (Own netif heard) s (s.query netif ipaddr q taken).2 := by
  unfold query
  split
  · exact .refl
  · have hfind := @grows_findEntry P s (Own netif heard) ipaddr .tryHard
    split
    · rename_i heq
      rwa [heq] at hfind
    · rename_i i s₁ heq
      rw [heq] at hfind
      refine hfind.trans ?_
      dsimp only
      generalize hs₂ : (if decide ((s₁.arpTable i).state = .empty) = true then
        s₁.setEntry i { s₁.arpTable i with state := .pending } else s₁) = s₂
      have h₂ : Grows (Own netif heard) s₁ s₂ := by
        rw [← hs₂]
        split <;> exact .of_eq rfl
      generalize hr : (if decide ((s₁.arpTable i).state = .empty) = true ∨ q.isNone = true then s₂.request netif ipaddr
        else (false, s₂)) = r
      have hasked : Grows (Own netif heard) s₂ r.2 := by
        rw [← hr]
        split
        · exact grows_raw ..
        · exact .refl
      generalize hs₄ : (if r.1 = true ∧ (s₂.arpTable i).state = .pending ∧ ¬decide ((s₁.arpTable i).state = .empty) = true
        then r.2.setEntry i { s₂.arpTable i with ctime := 0 } else r.2) = s₄
      have h₄ : Grows (Own netif heard) s₁ s₄ := by
        refine (h₂.trans hasked).trans ?_
        rw [← hs₄]
        split <;> exact .of_eq rfl
      refine h₄.trans ?_
      cases q with
      | none => exact .refl
      | some q =>
        dsimp only
        split
        · exact (Grows.of_eq rfl).trans (.log rfl)
        · split
          · unfold enqueue
            split
            · exact .refl
            · dsimp only
              split <;> exact .of_eq rfl
          · exact .refl

theorem grows_output (q : P) (ipaddr : UInt32) (taken : Bool) :
    Grows (Own netif heard) s (s.output netif q ipaddr taken).2 := by
  unfold output
  split
  · exact .log rfl
  · split
    · exact .log rfl
    · split
      · exact .refl
      · dsimp only
        rename_i dstAddr _
        have hlog : Grows (Own netif heard) s (s.log [.given dstAddr q]) := .log trivial
        refine hlog.trans ?_
        split
        · exact grows_outputToArpIndex ..
        · split
          · exact (Grows.of_eq rfl).trans (grows_outputToArpIndex ..)
          · exact grows_query ..

theorem grows_tmr : Grows (Own netif heard) s (s.tmr netif) := by
  have hentry (s : Etharp P) (i : Fin arpTableSize) : Grows (Own netif heard) s (tmrEntry netif s i) := by
    unfold tmrEntry
    dsimp only
    split
    · exact .refl
    · split
      · exact .of_eq rfl
      · split
        · exact .of_eq rfl
        · exact .of_eq rfl
        · exact (Grows.of_eq rfl).trans (grows_raw ..)
        · exact .of_eq rfl
  have hlog : Grows (Own netif heard) s (s.log [.tick]) := .log trivial
  refine hlog.trans ?_
  unfold tmr
  generalize s.log [.tick] = s, List.finRange arpTableSize = is
  induction is generalizing s with
  | nil => exact .refl
  | cons i is ih => exact (hentry s i).trans (ih _)

theorem grows_cleanupNetif : Grows C s s.cleanupNetif := by
  unfold cleanupNetif
  generalize List.finRange arpTableSize = is
  induction is generalizing s with
  | nil => exact .refl
  | cons i is ih =>
    rw [List.foldl_cons]
    split
    · exact (Grows.of_eq rfl).trans ih
    · exact ih

/-- What a host does by itself. -/
theorem grows_step {a : Action P} (ha : a.By netif) (h : step s a = some s') : Grows (Own netif heard) s s' := by
  cases a with
  | input n hdr => exact absurd ha id
  | output n q ipaddr taken =>
    obtain rfl : n = netif := ha
    obtain rfl : (s.output n q ipaddr taken).2 = s' := Option.some.inj h
    exact grows_output ..
  | query n ipaddr =>
    obtain rfl : n = netif := ha
    obtain rfl : (s.query n ipaddr none true).2 = s' := Option.some.inj h
    exact grows_query ..
  | request n ipaddr =>
    obtain rfl : n = netif := ha
    obtain rfl : (s.request n ipaddr).2 = s' := Option.some.inj h
    exact grows_raw ..
  | tmr n =>
    obtain rfl : n = netif := ha
    obtain rfl : s.tmr n = s' := Option.some.inj h
    exact grows_tmr
  | cleanup =>
    obtain rfl : s.cleanupNetif = s' := Option.some.inj h
    exact grows_cleanupNetif
  | memory ram =>
    obtain rfl : ({ s with ram := ram } : Etharp P) = s' := Option.some.inj h
    exact .of_eq rfl

end Etharp

/-! ### The link -/

namespace Link
variable {ι : Type} {netif : ι → Netif} {l l' : Link ι P}

/-- The pair belongs to a host. -/
def Genuine (netif : ι → Netif) (ipaddr : UInt32) (ethaddr : EthAddr) : Prop :=
  ∃ i, ipaddr = (netif i).ipAddr ∧ ethaddr = (netif i).hwaddr

structure Inv (netif : ι → Netif) (l : Link ι P) : Prop where
  hosts : ∀ i, (l.hosts i).Inv []
  messages : ∀ hdr ∈ l.messages, Genuine netif hdr.sipaddr hdr.shwaddr
  own : ∀ i, ∀ ev ∈ (l.hosts i).history, Etharp.Own (netif i) (Genuine netif) ev

theorem Inv.init (ram : ι → List Bool) : (init ram : Link ι P).Inv netif where
  hosts i := .init (ram i)
  messages _ hhdr := absurd hhdr List.not_mem_nil
  own _ _ hev := absurd hev List.not_mem_nil

variable [DecidableEq ι]

theorem Inv.went (h : l.Inv netif) {i : ι} {s : Etharp P} (hs : s.Inv [])
    (hgrows : Etharp.Grows (Etharp.Own (netif i) (Genuine netif)) (l.hosts i) s) : (l.went i s).Inv netif := by
  obtain ⟨evs, hhistory, hevs⟩ := hgrows
  refine ⟨fun j => ?_, fun hdr hhdr => ?_, fun j ev hev => ?_⟩
  · by_cases hj : j = i
    · subst hj
      simpa [Link.went] using hs
    · simpa [Link.went, Function.update_of_ne hj] using h.hosts j
  · rcases List.mem_append.mp hhdr with hhdr | hhdr
    · exact h.messages hdr hhdr
    · rw [hhistory, List.drop_left] at hhdr
      obtain ⟨ev, hev, hmessage⟩ := List.mem_filterMap.mp hhdr
      have hown := hevs ev hev
      cases ev with
      | arp hdr' =>
        obtain rfl : hdr' = hdr := Option.some.inj hmessage
        exact ⟨i, hown.1, hown.2.1⟩
      | given | announced | tick | xmit => cases hmessage
  · by_cases hj : j = i
    · subst hj
      simp only [Link.went, Function.update_self, hhistory] at hev
      rcases List.mem_append.mp hev with hev | hev
      · exact h.own j ev hev
      · exact hevs ev hev
    · simp only [Link.went, Function.update_of_ne hj] at hev
      exact h.own j ev hev

theorem Inv.step (h : l.Inv netif) {a : Action ι P} (ha : a.By netif) (hstep : step netif l a = some l') : l'.Inv netif := by
  cases a with
  | act i a =>
    obtain ⟨s, hs, rfl⟩ := Option.map_eq_some_iff.mp hstep
    exact h.went ((h.hosts i).step hs) (Etharp.grows_step ha hs)
  | deliver i k =>
    obtain ⟨hdr, hhdr, rfl⟩ := Option.map_eq_some_iff.mp hstep
    exact h.went ((h.hosts i).input ..) (Etharp.grows_input hdr (h.messages hdr (List.mem_of_getElem? hhdr)))

/-- The states of the link, whatever the hosts do and whatever reaches whom when. -/
def Reachable (netif : ι → Netif) (ram : ι → List Bool) (l : Link ι P) : Prop :=
  Run.Reaches (step netif) (fun _ a => a.By netif) (init ram) l

theorem Reachable.inv {ram : ι → List Bool} (h : Reachable netif ram l) : l.Inv netif :=
  Run.Reaches.invariant (P := Inv netif) h (.init ram) fun _ _ _ _ hinv ha hstep => hinv.step ha hstep

/-- An address that was announced is one that some event announced. -/
theorem announced_of_last {hop : UInt32} {es : List (ArpEvent P)} {dst : EthAddr} {age : Nat}
    (h : lastAnnounced hop es = some (dst, age)) : ArpEvent.announced hop dst ∈ es := by
  induction es using List.reverseRecOn generalizing age with
  | nil => cases h
  | append_singleton es ev ih =>
    rw [lastAnnounced_append, List.foldl_cons, List.foldl_nil] at h
    cases ev with
    | announced hop' mac =>
      simp only [noteAnnounced] at h
      split at h
      · rename_i heq
        cases h
        rw [← heq]
        exact List.mem_append_right _ List.mem_cons_self
      · exact List.mem_append_left _ (ih h)
    | tick =>
      obtain ⟨x, hx, heq⟩ := Option.map_eq_some_iff.mp h
      cases heq
      exact List.mem_append_left _ (ih hx)
    | given | xmit | arp => exact List.mem_append_left _ (ih h)

/-- Hosts with addresses of their own do not mislead each other: whenever one of them sends a packet whose next
    hop is another, it goes to the Ethernet address of that other host. The next hop of a packet for another
    network is the gateway. -/
theorem packets_reach_their_host {ram : ι → List Bool} (hdistinct : ∀ i j, (netif i).ipAddr = (netif j).ipAddr → i = j)
    (h : Reachable netif ram l) {i j : ι} {q : P} {src dst : EthAddr}
    (hsent : .xmit (some (netif j).ipAddr) q src dst ∈ (l.hosts i).history) :
    src = (netif i).hwaddr ∧ dst = (netif j).hwaddr := by
  have hinv := h.inv
  refine ⟨hinv.own i _ hsent, ?_⟩
  obtain ⟨pre, post, hsplit⟩ := List.append_of_mem hsent
  obtain ⟨age, -, hlast⟩ := (hinv.hosts i).timely pre _ q src dst post hsplit
  have hannounced : ArpEvent.announced (netif j).ipAddr dst ∈ (l.hosts i).history := by
    rw [hsplit]
    exact List.mem_append_left _ (announced_of_last hlast)
  obtain ⟨k, hip, hmac⟩ := hinv.own i _ hannounced
  rw [hmac, hdistinct j k hip]

/-- Two hosts, 192.168.0.2 and 192.168.0.3. -/
def twoNetifs (second : Bool) : Netif :=
  { Etharp.exampleIf with ipAddr := if second then 0x0300a8c0 else 0x0200a8c0, hwaddr := ⟨2, 0, 0, 0, 0, if second then 2 else 1⟩ }

/-- A packet, the request for its next hop, and the answer. -/
def exampleExchange : List (Action Bool Nat) :=
  [.act false (.output (twoNetifs false) 7 0x0300a8c0 true), .deliver true 0, .deliver false 1]

theorem packets_reach_their_host_two : ∃ l, Run.exec (step twoNetifs) (init fun _ => [true]) exampleExchange = some l ∧
    ∃ src dst, .xmit (some (twoNetifs true).ipAddr) 7 src dst ∈ (l.hosts false).history ∧ src = (twoNetifs false).hwaddr ∧
      dst = (twoNetifs true).hwaddr := by
  obtain ⟨l, hexec, hlast⟩ : ∃ l, Run.exec (step twoNetifs) (init fun _ => [true]) exampleExchange = some l ∧
      (l.hosts false).history[3]? = some (.xmit (some (twoNetifs true).ipAddr) 7 (twoNetifs false).hwaddr (twoNetifs true).hwaddr) :=
    ⟨_, rfl, rfl⟩
  have hsent := List.mem_of_getElem? hlast
  have hreach : Reachable twoNetifs (fun _ => [true]) l :=
    Run.Reaches.of_exec_all (fun a ha => by fin_cases ha <;> trivial) hexec
  exact ⟨l, hexec, _, _, hsent, packets_reach_their_host (by decide) hreach hsent⟩

end Link

end SpeakingClock.Net
