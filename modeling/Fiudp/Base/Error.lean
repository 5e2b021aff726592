import Fiudp.Base.PathBuf

/-!
# Errors and early exits

`FiudpError` and the texts of its I/O contexts, as `error.rs` and the callers
that build them have them.  A function of the sender stops early either with one
of these errors or by a panic, which the types of the source do not show.
-/

namespace Fiudp

/-- `io::ErrorKind`; only `NotFound` is ever told from the others. -/
inductive ErrorKind
  | notFound
  | other (code : ℕ)
  deriving DecidableEq

/-- `std::net::SocketAddrV4`, with the four octets of the address. -/
structure SocketAddrV4 where
  octets : Fin 4 → UInt8
  port : UInt16
  deriving DecidableEq

def SocketAddrV4.display (target : SocketAddrV4) : String :=
  toString (target.octets 0) ++ "." ++ toString (target.octets 1) ++ "." ++
    toString (target.octets 2) ++ "." ++ toString (target.octets 3) ++ ":" ++
    toString target.port

/-- What was being attempted when an I/O operation failed. -/
inductive IoContext
  | readKeyFile (path : PathBuf)
  | readInputFile (path : PathBuf)
  | readStdin
  | readSessionFile (path : PathBuf)
  | writeSessionFile (path : PathBuf)
  | bindSocket
  | connectSocket (target : SocketAddrV4)
  | sendPacket (target : SocketAddrV4)
  deriving DecidableEq

/-- The `context` text of an `Io` error. -/
def IoContext.text : IoContext → String
  | readKeyFile path => "failed to read key file " ++ path.display
  | readInputFile path => "failed to read input file " ++ path.display
  | readStdin => "failed to read from stdin"
  | readSessionFile path => "failed to read session_id file " ++ path.display
  | writeSessionFile path => "failed to write session_id file " ++ path.display
  | bindSocket => "failed to bind UDP socket"
  | connectSocket target => "failed to connect UDP socket to " ++ target.display
  | sendPacket target => "failed to send UDP packet to " ++ target.display

inductive FiudpError
  | invalidParityRatio (value : UInt8)
  | invalidKeyLength (length : ℕ)
  | invalidSessionFile
  | sessionIdOverflow
  | emptyInput
  | tooManyShards (total : ℕ)
  | invalidShardSize (actual expected : ℕ)
  | shortSend (sent expected : ℕ)
  | encryption (message : String)
  | fec (message : String)
  | io (context : IoContext) (source : ErrorKind)
  deriving DecidableEq

/-- Panics of the standard library, of `debug_assert_eq!` and of `expect`. -/
inductive Panic
  | arithmeticOverflow
  | debugAssertion
  | rangeOutOfBounds
  | expectFailed (message : String)
  deriving DecidableEq

/-- The ways a function of the sender stops without a value. -/
inductive Failure
  | error (error : FiudpError)
  | panic (panic : Panic)
  deriving DecidableEq

/-- The crate's `Result`, with panics made visible. -/
abbrev Result (α : Type) := Except Failure α

end Fiudp
