import SpeakingClock.NtpClient
import SpeakingClock.Driver
import SpeakingClock.Lib.Ledger

/-! The client and the driver together, with an account of the PCBs and packet buffers that they own. A
    poll of `lwip_periodic_handle` runs `lan9118_poll` and the timers; `netif->input` and the timers
    call back into the client. What lwIP and the device decide is scripted: each list below gives the
    outcomes in the order in which they are asked for, and after its end the allocations fail, the
    registers read 0 and nothing else happens. -/

namespace SpeakingClock
open Ledger

/-- How the code comes by a PCB or a packet buffer. -/
inductive Obtained where
  | udpNew
  | request  -- `pbuf_alloc` in `ntp_get_time`
  | received  -- given to `ntp_recv_callback`
  | frame  -- `pbuf_alloc` in `lan9118_poll`
  deriving DecidableEq, Repr

/-- How it parts with one. -/
inductive GivenUp where
  | udpRemove
  | freed  -- `pbuf_free` in the client
  | accepted  -- `netif->input` returned `ERR_OK`
  | dropped  -- `pbuf_free` in the driver
  deriving DecidableEq, Repr

/-- Which end each of them should come to. -/
inductive Fits : Obtained → GivenUp → Prop where
  | pcb : Fits .udpNew .udpRemove
  | request : Fits .request .freed
  | received : Fits .received .freed
  | accepted : Fits .frame .accepted
  | dropped : Fits .frame .dropped

/-- A call from lwIP: a datagram, with the payload of each segment of its buffer, or a change of the
    interface. -/
inductive Upcall where
  | datagram (p : Option (List Bytes)) (addr : Ip4) (port : UInt16)
  | status (ip netmask gw : Ip4)
  deriving DecidableEq, Repr

structure Stack where
  account : Account Obtained GivenUp
  news : List Bool  -- whether `udp_new` gives a PCB
  requests : List Bool  -- whether the request gets a buffer
  sends : List Int  -- what `udp_sendto` returns
  regs : List UInt32  -- what the registers of the device read
  allocs : List Alloc  -- how the allocations for frames go
  inputs : List (List Upcall × Int)  -- what `netif->input` calls, and what it returns
  timers : List (List Upcall)  -- what the timers call

def Stack.gain (g : Obtained) (w : Stack) : Stack := { w with account := w.account.gain g }

def Stack.lose (h : GivenUp) (r : Nat) (w : Stack) : Stack := { w with account := w.account.lose h r }

def Stack.read (w : Stack) : UInt32 × Stack := (w.regs.headD 0, { w with regs := w.regs.tail })

section
variable (call : Callback → App × Stack → App × Stack)

/-- A datagram that has a buffer hands it to the client. -/
def upcall (s : App × Stack) : Upcall → App × Stack
  | .datagram none addr port => call (.recv none addr port) s
  | .datagram (some segs) addr port =>
    call (.recv (some ⟨s.2.account.next, segs⟩) addr port) (s.1, s.2.gain .received)
  | .status ip netmask gw => call (.status ip netmask gw) s

/-- What `lan9118_poll` runs on. The driver owns a frame until `netif->input` returns `ERR_OK`. -/
def stackRx : RxOps (App × Stack) where
  rxFifoInf s := (s.2.read.1, s.1, s.2.read.2)
  rxStatusFifo s := (s.2.read.1, s.1, s.2.read.2)
  rxDataFifo s := (s.2.read.1, s.1, s.2.read.2)
  pbufAlloc len s :=
    let w := { s.2 with allocs := s.2.allocs.tail }
    match s.2.allocs.head?.bind fun a => { a with id := w.account.next }.chain len with
    | some p => (some p, s.1, w.gain .frame)
    | none => (none, s.1, w)
  input p s :=
    let (ups, err) := s.2.inputs.headD ([], 0)
    let s := ups.foldl (upcall call) (s.1, { s.2 with inputs := s.2.inputs.tail })
    (err, s.1, if err = 0 then s.2.lose .accepted p.id else s.2)
  pbufFree p s := (s.1, s.2.lose .dropped p)

end

/-- What `ntp_get_time` runs on. No poll goes around more often than there are registers to read. -/
def stackLwip : Lwip Stack where
  udpNew w :=
    let w' := { w with news := w.news.tail }
    if w.news.headD false then (some w'.account.next, w'.gain .udpNew) else (none, w')
  udpBind _ w := w
  udpRecv _ w := w
  pbufAlloc w :=
    let w' := { w with requests := w.requests.tail }
    if w.requests.headD false then (some w'.account.next, w'.gain .request) else (none, w')
  pbufFree p w := w.lose .freed p
  udpSendto _ _ _ _ _ w := (w.sends.headD 0, { w with sends := w.sends.tail })
  udpRemove pcb w := w.lose .udpRemove pcb
  periodicHandle call s :=
    let s := lan9118Poll (stackRx call) (s.2.regs.length + 1) s
    (s.2.timers.headD []).foldl (upcall call) (s.1, { s.2 with timers := s.2.timers.tail })

/-- A call of `ntp_get_time`, with what is in `*msg` before it, or a poll outside of calls. -/
inductive StackItem where
  | call (msg : TimeMsg)
  | poll
  deriving DecidableEq, Repr

def stackStep (s : App × Stack) : StackItem → App × Stack
  | .call msg => (ntpGetTime stackLwip msg s).2.2
  | .poll => lwipPeriodicHandle stackLwip s

/-- The calls and polls one after the other. -/
def stackRun (s : App × Stack) (items : List StackItem) : App × Stack := items.foldl stackStep s

end SpeakingClock
