import Fiudp.Config
import Fiudp.Sender.Pipeline

/-!
# Settings of a run

The validated configuration, and the two ways to obtain it: from the command-line
arguments and from the builder.
-/

namespace Fiudp.Run

open Sender

abbrev Ipv4Addr := Fin 4 → UInt8

/-- Where the input frame is read from. -/
inductive InputSource
  | file (path : PathBuf)
  | stdin
  deriving DecidableEq

structure Config where
  targetIp : Ipv4Addr
  rendezvousSecs : UInt32
  keyPath : PathBuf
  input : InputSource
  parityRatio : ParityRatio
  targetPort : UInt16
  delay : Duration
  chaosDrop : UInt8
  chaosBurst : UInt32
  chaosShuffle : Bool

/-- `Duration::from_micros`. -/
def fromMicros (micros : UInt64) : Duration := ⟨micros.toNat⟩

/-- `match image { Some(path) => InputSource::File(path), None => InputSource::Stdin }` -/
def inputOf : Option PathBuf → InputSource
  | some path => .file path
  | none => .stdin

/-! ## Command-line arguments -/

/-- The arguments after parsing; `image` may be absent, the others have a value. -/
structure Args where
  target : Ipv4Addr
  wakeAt : UInt32
  keyFile : PathBuf
  image : Option PathBuf
  parityRatio : UInt8
  port : UInt16
  delayUs : UInt64
  chaosBurst : UInt32
  chaosDrop : UInt8
  chaosShuffle : Bool

/-- `impl TryFrom<Args> for Config`. -/
def Config.tryFrom (args : Args) : Except FiudpError Config := do
  let parityRatio ← ParityRatio.tryFrom args.parityRatio
  return {
    targetIp := args.target
    rendezvousSecs := args.wakeAt
    keyPath := args.keyFile
    input := inputOf args.image
    parityRatio := parityRatio
    targetPort := args.port
    delay := fromMicros args.delayUs
    chaosDrop := min args.chaosDrop 100
    chaosBurst := args.chaosBurst
    chaosShuffle := args.chaosShuffle }

/-! ## The builder -/

structure ConfigBuilder where
  targetIp : Option Ipv4Addr := none
  rendezvousSecs : Option UInt32 := none
  keyPath : Option PathBuf := none
  image : Option PathBuf := none
  parityRatio : UInt8 := 15
  port : UInt16 := 5050
  delayUs : UInt64 := 500
  chaosDrop : UInt8 := 0
  chaosBurst : UInt32 := 0
  chaosShuffle : Bool := false

/-- `Option::expect`. -/
def expect {α : Type} (value : Option α) (message : String) : Result α :=
  match value with
  | some value => .ok value
  | none => .error (.panic (.expectFailed message))

namespace ConfigBuilder

variable (self : ConfigBuilder)

def setTarget (ip : Ipv4Addr) : ConfigBuilder := { self with targetIp := some ip }

def setWakeAt (secs : UInt32) : ConfigBuilder := { self with rendezvousSecs := some secs }

def setKeyFile (path : PathBuf) : ConfigBuilder := { self with keyPath := some path }

def setImage (path : PathBuf) : ConfigBuilder := { self with image := some path }

def setParityRatio (percent : UInt8) : ConfigBuilder := { self with parityRatio := percent }

def setPort (port : UInt16) : ConfigBuilder := { self with port := port }

def setDelayUs (us : UInt64) : ConfigBuilder := { self with delayUs := us }

def setChaosDrop (percent : UInt8) : ConfigBuilder := { self with chaosDrop := min percent 100 }

def setChaosBurst (burst : UInt32) : ConfigBuilder := { self with chaosBurst := burst }

def setChaosShuffle (shuffle : Bool) : ConfigBuilder := { self with chaosShuffle := shuffle }

/-- `ConfigBuilder::build`: an invalid ratio is reported before a missing field. -/
def build : Result Config := do
  let parityRatio ← (ParityRatio.tryFrom self.parityRatio).mapError Failure.error
  let targetIp ← expect self.targetIp "ConfigBuilder: target is required"
  let rendezvousSecs ← expect self.rendezvousSecs "ConfigBuilder: wake_at is required"
  let keyPath ← expect self.keyPath "ConfigBuilder: key_file is required"
  return {
    targetIp := targetIp
    rendezvousSecs := rendezvousSecs
    keyPath := keyPath
    input := inputOf self.image
    parityRatio := parityRatio
    targetPort := self.port
    delay := fromMicros self.delayUs
    chaosDrop := self.chaosDrop
    chaosBurst := self.chaosBurst
    chaosShuffle := self.chaosShuffle }

/-- The builder that has been given everything the arguments say. -/
def ofArgs (args : Args) : ConfigBuilder :=
  let required := (({} : ConfigBuilder).setTarget args.target).setWakeAt args.wakeAt
    |>.setKeyFile args.keyFile
  let withImage := match args.image with
    | some path => required.setImage path
    | none => required
  withImage.setParityRatio args.parityRatio
    |>.setPort args.port
    |>.setDelayUs args.delayUs
    |>.setChaosDrop args.chaosDrop
    |>.setChaosBurst args.chaosBurst
    |>.setChaosShuffle args.chaosShuffle

/-- The builder and the command line lead to one configuration, or to one error. -/
theorem build_ofArgs (args : Args) :
    (ofArgs args).build = (Config.tryFrom args).mapError Failure.error := by
  have hratio : (ofArgs args).parityRatio = args.parityRatio := rfl
  rw [build, Config.tryFrom, hratio]
  cases ParityRatio.tryFrom args.parityRatio with
  | error error => rfl
  | ok ratio =>
      rw [ofArgs]
      cases args.image <;> rfl

end ConfigBuilder

end Fiudp.Run
