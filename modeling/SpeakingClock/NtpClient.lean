import SpeakingClock.Basic

/-! `network/ntp_client.c` and the callbacks of `network/lwip_init.c`.

    The code runs on lwIP, which calls back into it: `ntp_recv_callback` for each datagram that reaches
    the client's PCB, `netif_status_callback` when the interface changes. lwIP is a parameter (`Lwip`)
    with a state of its own; the file-level statics that the callbacks share with the polling loop, and
    the bytes put on the UART, are the state `App`. -/

namespace SpeakingClock

/-! ### Data -/

structure Ip4 where
  a : UInt8
  b : UInt8
  c : UInt8
  d : UInt8
  deriving DecidableEq, Repr

def Ip4.ntoa (ip : Ip4) : Bytes :=
  fmtU ip.a.toNat ++ cstr "." ++ fmtU ip.b.toNat ++ cstr "." ++ fmtU ip.c.toNat ++ cstr "." ++ fmtU ip.d.toNat

/-- A chain of packet buffers: which one it is, and the payload of each segment. -/
structure Pbuf where
  id : Nat
  segs : List Bytes
  deriving DecidableEq, Repr

def Pbuf.payload (p : Pbuf) : Bytes := p.segs.flatten

def Pbuf.totLen (p : Pbuf) : Nat := (p.segs.map List.length).sum

def pbufCopyPartial (p : Pbuf) (len offset : Nat) : Bytes := (p.payload.drop offset).take len

def ntpPort : UInt16 := 123

def ntpPacketSize : Nat := 48

def ntpUnixEpochDiff : UInt32 := 2208988800

def istOffsetSeconds : UInt32 := 19800

def ntpTimeoutCycles : Nat := 5000

def serverAddr : Ip4 := ⟨162, 159, 200, 1⟩

/-- `ntp_request`: the first byte says LI 0, version 4, mode client; the rest is zero. -/
def ntpRequest : Bytes := 0x23 :: List.replicate (ntpPacketSize - 1) 0

/-- The statics `ntp_response_received`, `ntp_timestamp` and `dhcp_done`, and the bytes that the code
    has put on the UART. -/
structure App where
  ntpResponseReceived : Bool
  ntpTimestamp : UInt32
  dhcpDone : Bool
  uart : Bytes
  deriving DecidableEq, Repr

/-- `uart_puts` and `uart_printf`: the bytes of the string, after those sent before. -/
def App.puts (app : App) (s : Bytes) : App := { app with uart := app.uart ++ s }

/-- A call from lwIP into the code. -/
inductive Callback where
  | recv (p : Option Pbuf) (addr : Ip4) (port : UInt16)
  | status (ip netmask gw : Ip4)
  deriving DecidableEq, Repr

/-- What the code uses of lwIP and, through `lwip_periodic_handle`, of the driver. A PCB and a packet
    buffer are known by a number, `none` is a null pointer, and an error code of 0 is `ERR_OK`. -/
structure Lwip (W : Type) where
  udpNew : W → Option Nat × W
  udpBind : Nat → W → W  -- `udp_bind(pcb, IP_ADDR_ANY, 0)`
  udpRecv : Nat → W → W  -- `udp_recv(pcb, ntp_recv_callback, NULL)`
  pbufAlloc : W → Option Nat × W  -- `pbuf_alloc(PBUF_TRANSPORT, NTP_PACKET_SIZE, PBUF_RAM)`
  pbufFree : Nat → W → W
  udpSendto : Nat → Nat → Bytes → Ip4 → UInt16 → W → Int × W
  udpRemove : Nat → W → W
  /-- `lwip_periodic_handle`: one poll of the driver and of the timers, with the code to call back. -/
  periodicHandle : (Callback → App × W → App × W) → App × W → App × W

/-! ### Callbacks -/

/-- The big-endian value of bytes 40 to 43. -/
def transmitTimestamp (buf : Bytes) : UInt32 :=
  ((buf.getD 40 0).toUInt32 <<< 24) ||| ((buf.getD 41 0).toUInt32 <<< 16) |||
    ((buf.getD 42 0).toUInt32 <<< 8) ||| (buf.getD 43 0).toUInt32

/-- What `ntp_recv_callback` does to the statics with a packet. -/
def App.recv (app : App) (p : Pbuf) : App :=
  if p.totLen ≥ ntpPacketSize then
    let buf := pbufCopyPartial p ntpPacketSize 0
    { app with ntpTimestamp := transmitTimestamp buf, ntpResponseReceived := true }
  else app

/-- `ntp_recv_callback`. The address and the port are not looked at. -/
def ntpRecvCallback {W : Type} (L : Lwip W) (p : Option Pbuf) (_addr : Ip4) (_port : UInt16) (s : App × W) : App × W :=
  match p with
  | none => s
  | some p => (s.1.recv p, L.pbufFree p.id s.2)

def netifStatusCallback (ip netmask gw : Ip4) (app : App) : App :=
  if ip ≠ ⟨0, 0, 0, 0⟩ then
    { app with dhcpDone := true }.puts (cstr "Network: IP address obtained via DHCP\r\n") |>.puts
      (cstr "  IP:      " ++ ip.ntoa ++ cstr "\r\n") |>.puts
      (cstr "  Netmask: " ++ netmask.ntoa ++ cstr "\r\n") |>.puts
      (cstr "  Gateway: " ++ gw.ntoa ++ cstr "\r\n")
  else app

def dispatch {W : Type} (L : Lwip W) (cb : Callback) (s : App × W) : App × W :=
  match cb with
  | .recv p addr port => ntpRecvCallback L p addr port s
  | .status ip netmask gw => (netifStatusCallback ip netmask gw s.1, s.2)

def lwipPeriodicHandle {W : Type} (L : Lwip W) (s : App × W) : App × W := L.periodicHandle (dispatch L) s

/-! ### The query -/

/-- The conversion at the end of `ntp_get_time`, in `uint32_t` arithmetic. -/
def istOfTimestamp (ntpTimestamp : UInt32) : TimeMsg :=
  let unixTime := ntpTimestamp - ntpUnixEpochDiff
  let istTime := unixTime + istOffsetSeconds
  let secondsOfDay := istTime % 86400
  { hour := (secondsOfDay / 3600).toUInt8
    minute := ((secondsOfDay % 3600) / 60).toUInt8
    second := (secondsOfDay % 60).toUInt8 }

/-- The polling loop of `ntp_get_time`, with `timeout` cycles left. -/
def waitResponse {W : Type} (L : Lwip W) : Nat → App × W → App × W
  | 0, s => s
  | timeout + 1, s =>
    if s.1.ntpResponseReceived then s else waitResponse L timeout (lwipPeriodicHandle L s)

/-- `ntp_get_time` after the request was sent: poll for the response, remove the PCB, convert. -/
def awaitReply {W : Type} (L : Lwip W) (pcb : Nat) (msg : TimeMsg) (s : App × W) : Int × TimeMsg × App × W :=
  let s := waitResponse L ntpTimeoutCycles s
  let app := s.1
  let w := L.udpRemove pcb s.2
  if !app.ntpResponseReceived then
    (-1, msg, app.puts (cstr "NTP: Response timeout!\r\n"), w)
  else
    let app := app.puts (cstr "NTP: Received timestamp = " ++ fmtU app.ntpTimestamp.toNat ++ cstr " (NTP epoch)\r\n")
    let msg := istOfTimestamp app.ntpTimestamp
    (0, msg, app.puts (cstr "NTP: IST time = " ++ msg.fmt ++ cstr "\r\n"), w)

/-- `ntp_get_time`: what it returns, `*msg` after it, and the state it leaves. -/
def ntpGetTime {W : Type} (L : Lwip W) (msg : TimeMsg) (s : App × W) : Int × TimeMsg × App × W :=
  let app := s.1.puts (cstr "NTP: Sending time request...\r\n")
  let app := { app with ntpResponseReceived := false, ntpTimestamp := 0 }
  match L.udpNew s.2 with
  | (none, w) => (-1, msg, app.puts (cstr "NTP: Failed to create UDP PCB\r\n"), w)
  | (some pcb, w) =>
    let w := L.udpBind pcb w
    let w := L.udpRecv pcb w
    match L.pbufAlloc w with
    | (none, w) => (-1, msg, app.puts (cstr "NTP: Failed to allocate pbuf\r\n"), L.udpRemove pcb w)
    | (some p, w) =>
      let app := app.puts (cstr "NTP: Sending to " ++ serverAddr.ntoa ++ cstr ":" ++ fmtU ntpPort.toNat ++ cstr "\r\n")
      match L.udpSendto pcb p ntpRequest serverAddr ntpPort w with
      | (err, w) =>
        let w := L.pbufFree p w
        if err ≠ 0 then
          (-1, msg, app.puts (cstr "NTP: Send failed (err=" ++ fmtD err ++ cstr ")\r\n"), L.udpRemove pcb w)
        else
          awaitReply L pcb msg (app.puts (cstr "NTP: Request sent, waiting for response...\r\n"), w)

/-! ### A scripted lwIP -/

/-- How lwIP behaves during one call: whether the allocations succeed, the result of the send, and
    the calls into the code at each poll. -/
structure QueryEnv where
  udpNew : Bool
  pbufAlloc : Bool
  sendto : Int
  polls : List (List Callback)
  deriving DecidableEq, Repr

/-- The lwIP of a script: each poll makes the next list of calls, and none after the last. -/
def scripted : Lwip QueryEnv where
  udpNew env := (if env.udpNew then some 0 else none, env)
  udpBind _ env := env
  udpRecv _ env := env
  pbufAlloc env := (if env.pbufAlloc then some 0 else none, env)
  pbufFree _ env := env
  udpSendto _ _ _ _ _ env := (env.sendto, env)
  udpRemove _ env := env
  periodicHandle call s :=
    (s.2.polls.headD []).foldl (fun s cb => call cb s) (s.1, { s.2 with polls := s.2.polls.tail })

end SpeakingClock
