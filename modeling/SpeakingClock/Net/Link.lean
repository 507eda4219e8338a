import SpeakingClock.Net.Arp

/-! Hosts that run ARP on one link. What one of them sends may reach any of them, at any time, more than once
    or not at all. -/

namespace SpeakingClock.Net

/-- The message that an event puts on the link. -/
def ArpEvent.message? {P : Type} : ArpEvent P → Option EtharpHdr
  | .arp hdr _ _ => some hdr
  | _ => none

/-- The hosts, and all that they have sent. -/
structure Link (ι P : Type) where
  hosts : ι → Etharp P
  messages : List EtharpHdr

namespace Link
variable {ι P : Type} [DecidableEq ι]

def init (ram : ι → List Bool) : Link ι P := ⟨fun i => .init (ram i), []⟩

/-- The host `i` is in the state `s` now, and what it recorded since is on the link. -/
def went (l : Link ι P) (i : ι) (s : Etharp P) : Link ι P where
  hosts := Function.update l.hosts i s
  messages := l.messages ++ (s.history.drop (l.hosts i).history.length).filterMap ArpEvent.message?

inductive Action (ι P : Type) where
  | act (i : ι) (a : Etharp.Action P)  -- something happens at a host
  | deliver (i : ι) (k : Nat)  -- a message reaches a host

/-- One step, when the host `i` has the interface `netif i`. -/
def step (netif : ι → Netif) (l : Link ι P) : Action ι P → Option (Link ι P)
  | .act i a => (Etharp.step (l.hosts i) a).map (l.went i)
  | .deliver i k => l.messages[k]?.map fun hdr => l.went i ((l.hosts i).input (netif i) hdr)

end Link

/-- What a host does by itself, through its own interface. -/
def Etharp.Action.By {P : Type} (netif : Netif) : Etharp.Action P → Prop
  | .input .. => False
  | .output n .. | .query n _ | .request n _ | .tmr n => n = netif
  | .cleanup | .memory _ => True

/-- What happens on the link: each host uses its own interface, and gets only what was sent. -/
def Link.Action.By {ι P : Type} (netif : ι → Netif) : Link.Action ι P → Prop
  | .act i a => a.By (netif i)
  | .deliver .. => True

end SpeakingClock.Net
