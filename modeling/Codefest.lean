import Codefest.Lib.Transition
import Codefest.Sio.Client
import Codefest.Proofs.GameMap
import Codefest.Main.Keys
import Codefest.Proofs.KeyLoop
import Codefest.Main.Listeners
import Codefest.Proofs.Ticktack
import Codefest.Lib.Latch
import Codefest.Main.System
import Codefest.Proofs.Steps
import Codefest.Proofs.Barrier
import Codefest.Proofs.Startup
import Codefest.Proofs.Sessions
import Codefest.Proofs.Outgoing
import Codefest.Proofs.Handlers
import Codefest.Proofs.Mutex
import Codefest.Proofs.Handling
import Codefest.Proofs.Connection
import Codefest.Lib.Text
import Codefest.Proofs.RoundTrip
import Codefest.Sio.Wire
import Codefest.Proofs.Wire
import Codefest.Proofs.Manager
import Codefest.Proofs.Receiver
import Codefest.Proofs.Lifetime
import Codefest.Main.Process
import Codefest.Proofs.Process
import Codefest.Proofs.Simulation
import Codefest.Proofs.Root
import Codefest.Proofs.Delivery
import Codefest.Proofs.EndToEnd
import Codefest.Proofs.Quitting
import Codefest.Proofs.Payloads
import Codefest.Proofs.Display
import Codefest.Lib.Threads
import Codefest.Sio.Sending
import Codefest.Proofs.Sending
import Codefest.Proofs.Acks
import Codefest.Lib.Percent
import Codefest.Proofs.Query
