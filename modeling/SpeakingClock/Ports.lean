import SpeakingClock.NtpClient

/-! lwIP's UDP PCBs and their local ports (`lwip/src/core/udp.c`), as far as `ntp_get_time` meets them: a
    datagram reaches `ntp_recv_callback` only while a PCB bound to its destination port is registered
    with that callback. Which port a bind to port 0 picks is a parameter. -/

namespace SpeakingClock

structure Pcb where
  id : Nat
  localPort : Option UInt16
  recv : Bool  -- `ntp_recv_callback` is registered
  deriving DecidableEq, Repr

/-- What a poll brings: a datagram with its destination port and its source, or a change of the
    interface. -/
inductive Delivery where
  | datagram (dest : UInt16) (p : Option Pbuf) (addr : Ip4) (port : UInt16)
  | status (ip netmask gw : Ip4)
  deriving DecidableEq, Repr

/-- How lwIP behaves during one call of `ntp_get_time`. -/
structure CallScript where
  udpNew : Bool
  pbufAlloc : Bool
  sendto : Int
  polls : List (List Delivery)
  deriving DecidableEq, Repr

structure Ports where
  nextId : Nat
  pcbs : List Pcb  -- the PCBs that `udp_new` gave and `udp_remove` did not take back
  binds : Nat  -- how many binds picked a port so far
  script : CallScript
  deriving DecidableEq, Repr

/-- `udp_input` finds a PCB for this destination port, with the callback registered. -/
def Ports.listens (w : Ports) (dest : UInt16) : Bool := w.pcbs.any fun q => q.localPort == some dest && q.recv

def Ports.modify (w : Ports) (id : Nat) (f : Pcb → Pcb) : Ports :=
  { w with pcbs := w.pcbs.map fun q => if q.id = id then f q else q }

/-- One delivery: the callback it leads to, if any. -/
def Ports.callback (w : Ports) : Delivery → Option Callback
  | .datagram dest p addr port => if w.listens dest then some (.recv p addr port) else none
  | .status ip netmask gw => some (.status ip netmask gw)

/-- lwIP when the `k`-th bind to port 0 picks the port `newPort k`. -/
def portLwip (newPort : Nat → UInt16) : Lwip Ports where
  udpNew w :=
    if w.script.udpNew then
      (some w.nextId, { w with nextId := w.nextId + 1, pcbs := ⟨w.nextId, none, false⟩ :: w.pcbs })
    else (none, w)
  udpBind id w :=
    { w.modify id fun q => { q with localPort := some (newPort w.binds) } with binds := w.binds + 1 }
  udpRecv id w := w.modify id fun q => { q with recv := true }
  pbufAlloc w := (if w.script.pbufAlloc then some 0 else none, w)
  pbufFree _ w := w
  udpSendto _ _ _ _ _ w := (w.script.sendto, w)
  udpRemove id w := { w with pcbs := w.pcbs.filter (·.id ≠ id) }
  periodicHandle call s :=
    (s.2.script.polls.headD []).foldl
      (fun s d => match s.2.callback d with | some cb => call cb s | none => s)
      (s.1, { s.2 with script := { s.2.script with polls := s.2.script.polls.tail } })

/-- What `ntp_task` does with the network: a call of `ntp_get_time`, or a poll outside calls. -/
inductive NetItem where
  | call (script : CallScript)
  | idle (poll : List Delivery)
  deriving DecidableEq, Repr

structure NetState where
  msg : TimeMsg
  app : App
  ports : Ports

/-- The calls and polls one after the other: what each call returned, and `*msg` after it. -/
def netResults (newPort : Nat → UInt16) : NetState → List NetItem → List (Int × TimeMsg)
  | _, [] => []
  | s, .call script :: items =>
    let r := ntpGetTime (portLwip newPort) s.msg (s.app, { s.ports with script := script })
    (r.1, r.2.1) :: netResults newPort ⟨r.2.1, r.2.2.1, r.2.2.2⟩ items
  | s, .idle poll :: items =>
    let r := lwipPeriodicHandle (portLwip newPort) (s.app, { s.ports with script := ⟨true, true, 0, [poll]⟩ })
    netResults newPort ⟨s.msg, r.1, r.2⟩ items

def netCalls (items : List NetItem) : Nat := items.countP fun | .call _ => true | .idle _ => false

end SpeakingClock
