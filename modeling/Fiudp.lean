import Fiudp.Core.Interaction
import Fiudp.Core.Collector
import Fiudp.Core.Components
import Fiudp.Core.World
import Fiudp.Core.Mirroring
import Fiudp.Core.Contracts
import Fiudp.Core.Budget
import Fiudp.Core.Interleaving
import Fiudp.Core.ByteLayout
import Fiudp.Core.Blocks
import Fiudp.Core.ErasureCode
import Fiudp.Core.Tickets
import Fiudp.Core.Texts
import Fiudp.Base.PathBuf
import Fiudp.Base.Error
import Fiudp.Base.Message
import Fiudp.Base.Target
import Fiudp.Wire.Types
import Fiudp.Wire.Protocol
import Fiudp.Wire.Codec
import Fiudp.Wire.Crypto
import Fiudp.Config
import Fiudp.Sender.Pipeline
import Fiudp.Sender.Stages
import Fiudp.Sender.Components
import Fiudp.Sender.Exits
import Fiudp.Sender.Nonces
import Fiudp.Sender.Arithmetic
import Fiudp.Sender.Failures
import Fiudp.Sender.Observations
import Fiudp.Sender.Stream
import Fiudp.Sender.Chaos
import Fiudp.Sender.Disclosure
import Fiudp.Sender.Outcome
import Fiudp.Sender.Fec
import Fiudp.Sender.Launch
import Fiudp.Receiver.Decode
import Fiudp.Receiver.Machine
import Fiudp.Os.Calls
import Fiudp.Os.Files
import Fiudp.Session.Store
import Fiudp.Session.Paths
import Fiudp.Session.Effects
import Fiudp.Session.Atomicity
import Fiudp.Session.Concurrency
import Fiudp.Run.Settings
import Fiudp.Run.Program
import Fiudp.Run.Stages
import Fiudp.Run.Attempt
import Fiudp.Run.Success
import Fiudp.Run.History
import Fiudp.Run.Aliases
import Fiudp.Run.Rejection
import Fiudp.Run.Footprint
import Fiudp.Run.Wire
import Fiudp.Run.Rotation
import Fiudp.Run.Delivery
import Fiudp.Run.Reception
import Fiudp.Run.Precedence
import Fiudp.Run.Fleet
import Fiudp.Run.Parallel
import Fiudp.Run.Causes
import Fiudp.Run.Main
import Fiudp.Run.Verdict
import Fiudp.Run.Secrecy
import Fiudp.Run.Lifetime
import Fiudp.Run.Expenses
