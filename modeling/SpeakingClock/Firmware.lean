import SpeakingClock.Speech
import SpeakingClock.NtpClient

/-! The three tasks of the firmware (`src/key_task.c`, `src/ntp_task.c`, `src/speech_task.c`) over the
    primitives that `main` creates: the binary semaphore `time_request_sem`, the queue `time_queue` of
    length 1, and the UART.

    A task prints by queueing bytes in its `out` buffer; each `uart_putc` is a step of its own, and any
    other step of a task waits until its buffer is empty, so a task's bytes and its other actions keep
    their program order. Steps of different tasks interleave freely. Time is not modelled: a delay ends,
    and a take or a send times out, at any moment. -/

namespace SpeakingClock

/-! ### Texts -/

/-- What `main` prints before it starts the scheduler. -/
def mainText : Bytes :=
  cstr "\r\n" ++
  cstr "================================================\r\n" ++
  cstr "  Speaking Clock - STM32 / FreeRTOS / QEMU\r\n" ++
  cstr "  Network Time Protocol (NTP) Client\r\n" ++
  cstr "================================================\r\n" ++
  cstr "\r\n" ++
  cstr "Creating IPC primitives...\r\n" ++
  cstr "Creating tasks...\r\n" ++
  cstr "Starting FreeRTOS scheduler...\r\n\r\n"

/-- What `key_task` prints when it starts. -/
def keyBanner : Bytes :=
  cstr "\r\n========================================\r\n" ++
  cstr "  Network-Synchronised Speaking Clock\r\n" ++
  cstr "  Press 't' to announce the time\r\n" ++
  cstr "========================================\r\n\r\n"

/-- What `speech_task` prints when it starts. -/
def speechBanner : Bytes := cstr "Speech Task: Started, waiting for time messages...\r\n"

/-- What `lan9118_hw_init` reads from the device, and whether its soft reset timed out. -/
structure HwInit where
  idRev : UInt32
  byteTest : UInt32
  resetTimeout : Bool
  deriving DecidableEq, Repr

/-- What `lan9118_hw_init` prints. -/
def hwInitText (hw : HwInit) : Bytes :=
  cstr "LAN9118: Initializing...\r\n" ++
  (cstr "LAN9118: ID_REV = 0x" ++ fmtHex 8 hw.idRev.toNat ++ cstr "\r\n") ++
  (cstr "LAN9118: BYTE_TEST = 0x" ++ fmtHex 8 hw.byteTest.toNat ++ cstr "\r\n") ++
  (if hw.resetTimeout then cstr "LAN9118: WARNING - soft reset timeout (continuing)\r\n"
    else cstr "LAN9118: Soft reset complete\r\n") ++
  cstr "LAN9118: Setting MAC address...\r\n" ++
  cstr "LAN9118: MAC = 00:02:f7:f0:00:01\r\n" ++
  cstr "LAN9118: Initialization complete\r\n"

/-- What `ntp_task` prints up to its wait for DHCP, `network_init` included. -/
def ntpBanner (hw : HwInit) : Bytes :=
  cstr "NTP Task: Initializing network stack...\r\n" ++
  cstr "Initializing lwIP stack...\r\n" ++
  cstr "lwIP init done.\r\n" ++
  cstr "Adding network interface...\r\n" ++
  hwInitText hw ++
  cstr "Network interface added.\r\n" ++
  cstr "Starting DHCP...\r\n" ++
  cstr "NTP Task: Network stack initialized.\r\n" ++
  cstr "NTP Task: Waiting for DHCP...\r\n"

/-! ### Tasks -/

inductive Writer where
  | main
  | key
  | ntp
  | speech
  deriving DecidableEq, Repr

instance : Fintype Writer := ⟨{.main, .key, .ntp, .speech}, fun w => by cases w <;> decide⟩

inductive KeyPc where
  | poll  -- at the check of the UART for a character
  | give  -- at `xSemaphoreGive`
  | delay  -- in `vTaskDelay(50 ms)`
  deriving DecidableEq, Repr

inductive NtpPc where
  | waitDhcp  -- at the check of `network_is_up()`
  | dhcpDelay  -- in `vTaskDelay(10 ms)` of the wait for DHCP
  | take  -- at `xSemaphoreTake`
  | query (retries : Nat)  -- at `ntp_get_time`, with this value of `retries`
  | send (retries : Nat)  -- at `xQueueSend`
  | retryDelay (retries : Nat)  -- in `vTaskDelay(1000 ms)` before the next attempt
  | poll  -- at `lwip_periodic_handle` at the end of the loop
  deriving DecidableEq, Repr

inductive SpeechPc where
  | receive  -- at `xQueueReceive`
  | announce (m : TimeMsg)  -- in `speak_time`, up to the end marker
  | close (m : TimeMsg)  -- in `speak_time`, after the end marker
  deriving DecidableEq, Repr

structure KeyTask where
  pc : KeyPc
  out : Bytes
  deriving DecidableEq, Repr

/-- `ntp_task`, with its local `msg` and the statics of the code it calls; its bytes still to be put
    are `app.uart`. -/
structure NtpTask where
  pc : NtpPc
  msg : TimeMsg
  app : App
  deriving DecidableEq, Repr

structure SpeechTask where
  pc : SpeechPc
  out : Bytes
  deriving DecidableEq, Repr

/-- What happened, as far as requests and announcements are concerned. -/
inductive Event where
  | accepted  -- `key_task` read a 't' or 'T'
  | gave  -- `key_task` gave the semaphore
  | took  -- `ntp_task` took the semaphore: a round begins
  | queried (env : QueryEnv) (result : Option TimeMsg)  -- `ntp_get_time` returned 0 with this message, or -1
  | sent (m : TimeMsg)
  | sendTimedOut (m : TimeMsg)
  | allRetriesFailed  -- `ntp_task` reported that all retries failed
  | roundDone  -- a round ended
  | received (m : TimeMsg)  -- `speech_task` received a message and handed it to `speak_time`
  | spoke (m : TimeMsg)  -- `speak_time` returned
  deriving DecidableEq, Repr

structure State where
  key : KeyTask
  ntp : NtpTask
  speech : SpeechTask
  sem : Bool  -- `time_request_sem` is full
  queue : List TimeMsg  -- the content of `time_queue`, oldest first
  uart : List (Writer × UInt8)  -- the bytes on the UART and who put them
  history : List Event
  deriving DecidableEq, Repr

/-- The state when the scheduler starts: an empty semaphore and an empty queue. The message of
    `ntp_task` is not initialised. -/
def State.init (hw : HwInit) (msg : TimeMsg) : State where
  key := ⟨.poll, keyBanner⟩
  ntp := ⟨.waitDhcp, msg, ⟨false, 0, false, ntpBanner hw⟩⟩
  speech := ⟨.receive, speechBanner⟩
  sem := false
  queue := []
  uart := mainText.map (Writer.main, ·)
  history := []

/-! ### Steps -/

inductive Action where
  | keyPutc  -- the task puts its next byte
  | ntpPutc
  | speechPutc
  | keyPoll (rx : Option UInt8)  -- `key_task` checks the UART, which holds no character or this one
  | keyGive
  | keyWake
  /-- `ntp_task` checks `network_is_up()` and polls if it is not; lwIP makes these calls. -/
  | ntpDhcp (cbs : List Callback)
  | ntpWake  -- a delay of `ntp_task` ends
  | ntpTake
  | ntpTakeTimeout
  | ntpQuery (env : QueryEnv)  -- `ntp_task` calls `ntp_get_time`, and lwIP behaves like this
  | ntpSend
  | ntpSendTimeout
  | ntpPoll (cbs : List Callback)
  | speechReceive
  | speechClose
  | speechDone
  deriving DecidableEq, Repr

def App.poll (app : App) (cbs : List Callback) : App :=
  (lwipPeriodicHandle scripted (app, ⟨true, true, 0, [cbs]⟩)).1

/-- `ntp_task` after its retry loop. -/
def State.afterLoop (s : State) (retries : Nat) (events : List Event) : State :=
  if retries = 0 then
    { s with
      ntp := { s.ntp with pc := .poll, app := s.ntp.app.puts (cstr "NTP Task: All retries failed!\r\n") }
      history := s.history ++ events ++ [.allRetriesFailed, .roundDone] }
  else
    { s with ntp := { s.ntp with pc := .poll }, history := s.history ++ events ++ [.roundDone] }

/-- One attempt of the retry loop, with `retries` attempts left. -/
def State.attempt (s : State) (retries : Nat) (env : QueryEnv) : State :=
  let r := ntpGetTime scripted s.ntp.msg (s.ntp.app, env)
  let s := { s with ntp := { s.ntp with msg := r.2.1, app := r.2.2.1 } }
  if r.1 = 0 then
    { s with
      ntp := { s.ntp with
        pc := .send retries
        app := s.ntp.app.puts (cstr "NTP Task: Time = " ++ s.ntp.msg.fmt ++ cstr " IST\r\n") }
      history := s.history ++ [.queried env (some s.ntp.msg)] }
  else
    let retries := retries - 1
    if retries > 0 then
      { s with
        ntp := { s.ntp with
          pc := .retryDelay retries
          app := s.ntp.app.puts (cstr "NTP Task: Retry (" ++ fmtU retries ++ cstr " remaining)...\r\n") }
        history := s.history ++ [.queried env none] }
    else s.afterLoop retries [.queried env none]

/-- The next byte of a task. -/
def State.putc (s : State) (w : Writer) : Option State :=
  match w with
  | .main => none
  | .key =>
    match s.key.out with
    | [] => none
    | b :: bs => some { s with key := { s.key with out := bs }, uart := s.uart ++ [(.key, b)] }
  | .ntp =>
    match s.ntp.app.uart with
    | [] => none
    | b :: bs => some { s with ntp := { s.ntp with app := { s.ntp.app with uart := bs } }, uart := s.uart ++ [(.ntp, b)] }
  | .speech =>
    match s.speech.out with
    | [] => none
    | b :: bs => some { s with speech := { s.speech with out := bs }, uart := s.uart ++ [(.speech, b)] }

/-- A step of `key_task` other than a byte. -/
def State.keyStep (s : State) (a : Action) : Option State :=
  match s.key.pc, a with
  | .poll, .keyPoll (some c) =>
    -- 't' or 'T'
    if c = 116 ∨ c = 84 then
      some { s with key := ⟨.give, cstr "Key: Time request received!\r\n"⟩, history := s.history ++ [.accepted] }
    else some { s with key := ⟨.delay, []⟩ }
  | .poll, .keyPoll none => some { s with key := ⟨.delay, []⟩ }
  | .give, .keyGive => some { s with key := ⟨.delay, []⟩, sem := true, history := s.history ++ [.gave] }
  | .delay, .keyWake => some { s with key := ⟨.poll, []⟩ }
  | _, _ => none

/-- A step of `ntp_task` other than a byte. -/
def State.ntpStep (s : State) (a : Action) : Option State :=
  match s.ntp.pc, a with
  | .waitDhcp, .ntpDhcp cbs =>
    if s.ntp.app.dhcpDone then
      some { s with ntp := { s.ntp with
        pc := .take
        app := (s.ntp.app.puts (cstr "NTP Task: Network is ready!\r\n")).puts
          (cstr "NTP Task: Waiting for time requests...\r\n") } }
    else some { s with ntp := { s.ntp with pc := .dhcpDelay, app := s.ntp.app.poll cbs } }
  | .dhcpDelay, .ntpWake => some { s with ntp := { s.ntp with pc := .waitDhcp } }
  | .take, .ntpTake =>
    if s.sem then
      some { s with
        ntp := { s.ntp with
          pc := .query 3
          app := s.ntp.app.puts (cstr "NTP Task: Processing time request...\r\n") }
        sem := false
        history := s.history ++ [.took] }
    else none
  | .take, .ntpTakeTimeout => some { s with ntp := { s.ntp with pc := .poll } }
  | .query retries, .ntpQuery env => some (s.attempt retries env)
  | .retryDelay retries, .ntpWake => some { s with ntp := { s.ntp with pc := .query retries } }
  | .send retries, .ntpSend =>
    -- The queue holds one message.
    if s.queue = [] then
      some ({ s with queue := [s.ntp.msg] }.afterLoop retries [.sent s.ntp.msg])
    else none
  | .send retries, .ntpSendTimeout =>
    some ({ s with ntp := { s.ntp with
      app := s.ntp.app.puts (cstr "NTP Task: Failed to send to queue!\r\n") } }.afterLoop retries
        [.sendTimedOut s.ntp.msg])
  | .poll, .ntpPoll cbs => some { s with ntp := { s.ntp with pc := .take, app := s.ntp.app.poll cbs } }
  | _, _ => none

/-- A step of `speech_task` other than a byte. -/
def State.speechStep (s : State) (a : Action) : Option State :=
  match s.speech.pc, a with
  | .receive, .speechReceive =>
    match s.queue with
    | [] => none
    | m :: queue =>
      some { s with
        speech := ⟨.announce m, announceLine m ++ speakTokens m⟩
        queue := queue
        history := s.history ++ [.received m] }
  | .announce m, .speechClose => some { s with speech := ⟨.close m, speakTrailer⟩ }
  | .close m, .speechDone => some { s with speech := ⟨.receive, []⟩, history := s.history ++ [.spoke m] }
  | _, _ => none

def Action.task : Action → Writer
  | .keyPutc | .keyPoll _ | .keyGive | .keyWake => .key
  | .speechPutc | .speechReceive | .speechClose | .speechDone => .speech
  | _ => .ntp

def State.out (s : State) : Writer → Bytes
  | .main => []
  | .key => s.key.out
  | .ntp => s.ntp.app.uart
  | .speech => s.speech.out

/-- One step. An action other than a byte waits for the bytes its task put before it. -/
def step (s : State) (a : Action) : Option State :=
  match a with
  | .keyPutc => s.putc .key
  | .ntpPutc => s.putc .ntp
  | .speechPutc => s.putc .speech
  | a =>
    if s.out a.task = [] then
      match a.task with
      | .key => s.keyStep a
      | .ntp => s.ntpStep a
      | .speech => s.speechStep a
      | .main => none
    else none

/-- `ntp_task` cannot go on until another task or the clock wakes it. -/
def State.ntpBlocked (s : State) : Bool :=
  s.ntp.app.uart = [] &&
    match s.ntp.pc with
    | .dhcpDelay | .retryDelay _ => true
    | .take => !s.sem
    | .send _ => s.queue ≠ []
    | _ => false

/-- What the scheduler lets run: `ntp_task` has the higher priority, so the other two run only while it
    is blocked; between themselves they are time-sliced. -/
def Scheduled (s : State) (a : Action) : Prop := a.task = .ntp ∨ s.ntpBlocked

instance (s : State) (a : Action) : Decidable (Scheduled s a) := inferInstanceAs (Decidable (_ ∨ _))

end SpeakingClock
