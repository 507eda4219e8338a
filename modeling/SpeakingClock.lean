import SpeakingClock.Lib.Run
import SpeakingClock.Theorems.RoundTrip
import SpeakingClock.Theorems.Query
import SpeakingClock.Theorems.Source
import SpeakingClock.Theorems.Logs
import SpeakingClock.Theorems.Steps
import SpeakingClock.Theorems.Conservation
import SpeakingClock.Theorems.Schedule
import SpeakingClock.Theorems.Requests
import SpeakingClock.Theorems.Preemption
import SpeakingClock.Theorems.Validity
import SpeakingClock.Theorems.LateReplies
import SpeakingClock.Theorems.Receive
import SpeakingClock.Theorems.Startup
import SpeakingClock.Theorems.Transmit
import SpeakingClock.Theorems.Resources
import SpeakingClock.Theorems.Answer
import SpeakingClock.Theorems.Modes
import SpeakingClock.Theorems.Keyboard
import SpeakingClock.Theorems.Kernel.Fifo
import SpeakingClock.Theorems.Kernel.Rooms
import SpeakingClock.Theorems.Kernel.Wakeups
import SpeakingClock.Theorems.Kernel.Machine
import SpeakingClock.Theorems.Kernel.Scheduler
import SpeakingClock.Theorems.Net.EndToEnd
import SpeakingClock.Theorems.Net.Link
import SpeakingClock.Theorems.Net.Resolve
