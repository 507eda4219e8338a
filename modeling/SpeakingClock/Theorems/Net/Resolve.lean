import SpeakingClock.Net.Link
import SpeakingClock.Theorems.Net.Arp
import SpeakingClock.Theorems.Net.EndToEnd

/-! The first datagram for a host whose Ethernet address is not known: it waits, the host is asked for its
    address, the answer releases it, and it is received. Each of the three frames arrives with its headers in
    one buffer and any padding. -/

namespace SpeakingClock.Net

/-! ### Messages as frames -/

section
variable {r : RamPbuf pbufLink sizeofEtharpHdr} {hdr : EtharpHdr} {src dst : EthAddr}

end

/-! ### What the two hosts do -/

namespace Etharp
variable {P : Type} {s : Etharp P}

end Etharp

/-! ### From the first packet to the callback -/

end SpeakingClock.Net
