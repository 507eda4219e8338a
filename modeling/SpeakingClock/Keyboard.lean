import SpeakingClock.Basic

/-! `scripts/tts_bridge.py`: the loop of `interactive_mode` that forwards keys to QEMU. A key passes two
    buffers: the terminal's queue, which `select` tests, and that of `sys.stdin.buffer`, into which
    `read(1)` moves all that the queue holds when it finds it empty. -/

namespace SpeakingClock

/-- Where the loop stands. -/
inductive InputPc where
  | select  -- at its head
  | idle  -- `select` has just reported nothing ready
  | read  -- `select` has reported a key, to be read as `ch`
  | escape  -- `ch` was Ctrl+A, and `ch2` is to be read
  | exited  -- left at an exit key
  | stopped  -- left because `running` was cleared, QEMU ended or a write failed
  deriving DecidableEq, Repr

structure Keyboard where
  pc : InputPc
  arrived : Bytes  -- all that was typed
  queue : Bytes  -- what the terminal holds
  buffer : Bytes  -- what `sys.stdin.buffer` holds
  written : Bytes  -- what was written to QEMU
  deriving DecidableEq, Repr

def Keyboard.start : Keyboard := ⟨.select, [], [], [], []⟩

def ctrlA : UInt8 := 0x01

def ctrlC : UInt8 := 0x03

/-- Is the byte `x` or `X`. -/
def isX (b : UInt8) : Bool := b = 0x78 || b = 0x58

/-- `sys.stdin.buffer.read(1)`: none while it blocks. -/
def Keyboard.read1 (s : Keyboard) : Option (UInt8 × Keyboard) :=
  match s.buffer, s.queue with
  | ch :: rest, _ => some (ch, { s with buffer := rest })
  | [], ch :: rest => some (ch, { s with buffer := rest, queue := [] })
  | [], [] => none

/-- What the loop does with `ch`. -/
def Keyboard.key (s : Keyboard) (ch : UInt8) : Keyboard :=
  if ch = ctrlA then { s with pc := .escape }
  else if ch = ctrlC then { s with pc := .exited }
  else { s with written := s.written ++ [ch], pc := .select }

/-- What it does with `ch2` after Ctrl+A. -/
def Keyboard.escaped (s : Keyboard) (ch2 : UInt8) : Keyboard :=
  if isX ch2 then { s with pc := .exited } else { s with written := s.written ++ [ctrlA, ch2], pc := .select }

inductive KeyAction where
  | arrive (keys : Bytes)
  | loop  -- the loop goes on
  | stop  -- it ends for another reason than a key
  deriving DecidableEq, Repr

/-- None: the loop has ended, or waits for a key. A report of `select` is no longer the last thing that
    happened once keys arrive. -/
def Keyboard.step (s : Keyboard) : KeyAction → Option Keyboard
  | .arrive keys =>
    some { s with
      arrived := s.arrived ++ keys
      queue := s.queue ++ keys
      pc := if s.pc = .idle then .select else s.pc }
  | .loop =>
    match s.pc with
    | .select => some { s with pc := if s.queue = [] then .idle else .read }
    | .idle => some { s with pc := .select }
    | .read => s.read1.map fun r => r.2.key r.1
    | .escape => s.read1.map fun r => r.2.escaped r.1
    | .exited | .stopped => none
  | .stop => if s.pc = .exited ∨ s.pc = .stopped then none else some { s with pc := .stopped }

end SpeakingClock
