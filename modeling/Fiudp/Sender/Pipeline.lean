import Fiudp.Config
import Fiudp.Core.Interaction
import Fiudp.Wire.Crypto

/-!
# The send pipeline

`FiudpSender::send` as a program over the calls it makes to its four injected
components, to the random number generator and to the clock.  The components are
arbitrary: a call may be answered by anything its Rust type allows.
-/

namespace Fiudp.Sender

open ByteLayout Protocol Interaction

/-- One shard as it stands in memory, a `&mut [u8]`. -/
abbrev Slice := List UInt8

/-- `std::time::Duration`, in microseconds. -/
structure Duration where
  micros : ℕ
  deriving DecidableEq

/-- What an encryption returns and what it leaves in the buffer. -/
structure Sealed where
  tag : Tag
  buffer : Slice
  deriving DecidableEq

/-- The calls `send` makes. -/
inductive Call
  | readAll
  | encode (dataShards parityShards : ℕ) (shards : List Slice)
  | encryptInPlace (nonce : Nonce) (aad : Aad) (buffer : Slice)
  | sendPacket (packet : Packet)
  | sleep (delay : Duration)
  | genRangeTo (max : ℕ)
  | genPercent
  | shuffle (packets : List Packet)

/-- The answers the types of the source allow: `encode` gets a fixed number of
slices, a draw lies in its range, a shuffle is a permutation. -/
@[reducible]
def Reply (target : Target) : Call → Type
  | .readAll => Except FiudpError (ByteVec target)
  | .encode _ _ shards => Except FiudpError {out : List Slice // out.length = shards.length}
  | .encryptInPlace _ _ _ => Except FiudpError Sealed
  | .sendPacket _ => Except FiudpError Unit
  | .sleep _ => Unit
  | .genRangeTo max => Fin (max + 1)
  | .genPercent => Fin 100
  | .shuffle packets => {out : List Packet // out.Perm packets}

instance (target : Target) (call : Call) : Nonempty (Reply target call) := by
  cases call with
  | readAll => exact ⟨.error .emptyInput⟩
  | encode => exact ⟨.error .emptyInput⟩
  | encryptInPlace => exact ⟨.error .emptyInput⟩
  | sendPacket => exact ⟨.ok ()⟩
  | sleep => exact ⟨()⟩
  | genRangeTo max => exact ⟨(0 : Fin (max + 1))⟩
  | genPercent => exact ⟨(0 : Fin 100)⟩
  | shuffle packets => exact ⟨⟨packets, .refl _⟩⟩

abbrev Pipeline (target : Target) := Fallible Failure Call (Reply target)

variable {target : Target}

/-! ## Component calls -/

/-- `component.method(..)?`: an error of the component ends the function. -/
def attempt {α : Type} (program : Program Call (Reply target) (Except FiudpError α)) :
    Pipeline target α :=
  Fallible.mapErr Failure.error (ExceptT.mk program)

def readAll : Pipeline target (ByteVec target) :=
  attempt (.perform Call.readAll)

def encode (dataShards parityShards : ℕ) (shards : List Slice) :
    Pipeline target {out : List Slice // out.length = shards.length} :=
  attempt (.perform (Call.encode dataShards parityShards shards))

def encryptInPlace (nonce : Nonce) (aad : Aad) (buffer : Slice) : Pipeline target Sealed :=
  attempt (.perform (Call.encryptInPlace nonce aad buffer))

def sendPacket (packet : Packet) : Pipeline target Unit :=
  attempt (.perform (Call.sendPacket packet))

/-- `thread::sleep`. -/
def sleep (delay : Duration) : Pipeline target Unit :=
  Fallible.call (Call.sleep delay)

/-- `rng.gen_range(0..=max)`. -/
def genRangeTo (max : ℕ) : Pipeline target (Fin (max + 1)) :=
  Fallible.call (Call.genRangeTo max)

/-- `rng.gen_range(0..100)`. -/
def genPercent : Pipeline target (Fin 100) :=
  Fallible.call Call.genPercent

/-- `packets.shuffle(&mut rng)`. -/
def shuffle (packets : List Packet) : Pipeline target {out : List Packet // out.Perm packets} :=
  Fallible.call (Call.shuffle packets)

/-! ## The sender -/

/-- The settings of a `FiudpSender` besides its components. -/
structure FiudpSender where
  delay : Duration
  chaosDrop : UInt8
  chaosBurst : UInt32
  chaosShuffle : Bool

/-- `if parity_shards > 0 { self.fec.encode(..)?; }`: the slices it leaves. -/
def fecStage (dataShards parityShards : ℕ) (shards : List Slice) :
    Pipeline target (List Slice) :=
  if parityShards > 0 then do
    let out ← encode dataShards parityShards shards
    return out.val
  else pure shards

/-- The encryption loop: `index` is the position of the head of the list among
all shards. -/
def preparePackets (builder : PacketBuilder) (sessionId : SessionId) :
    ℕ → List Slice → Pipeline target (List Packet)
  | _, [] => pure []
  | index, shard :: rest => do
      if target.debugAssertions ∧ shard.length ≠ shardSize then
        throw (.panic .debugAssertion)
      else
        let shardIndex : ShardIndex := ⟨UInt16.ofNat index⟩
        let nonce := Crypto.deriveNonce sessionId shardIndex
        let aad := builder.buildAad shardIndex
        let encrypted ← encryptInPlace nonce aad shard
        let (written, packet) :=
          PacketBuilder.writePacket (Bytes.zeroes packetSize) aad encrypted.tag encrypted.buffer
        Fallible.ofExcept written
        let packets ← preparePackets builder sessionId (index + 1) rest
        return packet :: packets

/-- `Vec::drain(start..stop)`: what stays in the vector. -/
def drain {α : Type} (items : List α) (start stop : ℕ) : Result (List α) :=
  if start ≤ stop ∧ stop ≤ items.length then .ok (items.take start ++ items.drop stop)
  else .error (.panic .rangeOutOfBounds)

/-- `if self.chaos_burst > 0 { .. }`. -/
def burstStage (chaosBurst : UInt32) (ready : List Packet) :
    Pipeline target (List Packet) :=
  if chaosBurst.toNat > 0 then
    let maxStart := ready.length - chaosBurst.toNat
    if ready.isEmpty then pure ready
    else do
      let startIdx ← genRangeTo maxStart
      let stop ← Fallible.ofExcept (target.add startIdx.val chaosBurst.toNat)
      let endIdx := min ready.length stop
      Fallible.ofExcept (drain ready startIdx.val endIdx)
  else pure ready

/-- `Vec::retain` with one draw for each packet, in order. -/
def retainByDraw (chaosDrop : UInt8) : List Packet → Pipeline target (List Packet)
  | [] => pure []
  | packet :: rest => do
      let draw ← genPercent
      let kept ← retainByDraw chaosDrop rest
      return if draw.val ≥ chaosDrop.toNat then packet :: kept else kept

/-- `if self.chaos_drop > 0 { .. }`. -/
def dropStage (chaosDrop : UInt8) (ready : List Packet) : Pipeline target (List Packet) :=
  if chaosDrop.toNat > 0 then retainByDraw chaosDrop ready else pure ready

/-- `if self.chaos_shuffle { .. }`. -/
def shuffleStage (chaosShuffle : Bool) (ready : List Packet) :
    Pipeline target (List Packet) :=
  if chaosShuffle then do
    let shuffled ← shuffle ready
    return shuffled.val
  else pure ready

/-- The three chaos filters, in the order of the source. -/
def FiudpSender.chaos (self : FiudpSender) (ready : List Packet) :
    Pipeline target (List Packet) := do
  let ready ← burstStage self.chaosBurst ready
  let ready ← dropStage self.chaosDrop ready
  shuffleStage self.chaosShuffle ready

/-- The transmission loop: no sleep after the last packet. -/
def transmit (delay : Duration) (packetCount : ℕ) : ℕ → List Packet → Pipeline target Unit
  | _, [] => pure ()
  | index, packet :: rest => do
      sendPacket packet
      if index + 1 < packetCount then
        sleep delay
        transmit delay packetCount (index + 1) rest
      else
        transmit delay packetCount (index + 1) rest

/-- The builder of a session's packets; the counts have passed the `u16` guard. -/
def sessionBuilder (sessionId : SessionId) (rendezvousSecs : RendezvousSecs)
    (dataShards parityShards : ℕ) : PacketBuilder :=
  ⟨sessionId, rendezvousSecs, ⟨UInt16.ofNat dataShards⟩, ⟨UInt16.ofNat parityShards⟩⟩

/-- The data slices of the padded frame followed by zeroed parity slices. -/
def plainShards (payload : List UInt8) (parityShards : ℕ) : List Slice :=
  Blocks.chunksExact shardSize payload ++
    List.replicate parityShards (List.replicate shardSize 0)

/-- `FiudpSender::send` from the shard-count guard on. -/
def FiudpSender.sendShards (self : FiudpSender) (rendezvousSecs : RendezvousSecs)
    (sessionId : SessionId) (payload : List UInt8) (dataShards parityShards : ℕ) :
    Pipeline target Unit := do
  let shards ← fecStage dataShards parityShards (plainShards payload parityShards)
  let builder := sessionBuilder sessionId rendezvousSecs dataShards parityShards
  let ready ← preparePackets builder sessionId 0 shards
  let ready ← self.chaos ready
  transmit self.delay ready.length 0 ready

/-- `FiudpSender::send`. -/
def FiudpSender.send (self : FiudpSender) (parityRatio : ParityRatio)
    (rendezvousSecs : RendezvousSecs) (sessionId : SessionId) : Pipeline target Unit := do
  let frame ← readAll
  if frame.val.isEmpty then throw (.error .emptyInput)
  else
    let payload ← Fallible.ofExcept (padToShardSize target frame.val)
    let dataShards := payload.length / shardSize
    if dataShards = 0 then throw (.error .emptyInput)
    else
      let parityShards := parityRatio.parityShards target dataShards
      let totalShards ← Fallible.ofExcept (target.add dataShards parityShards)
      if totalShards > 65535 then throw (.error (.tooManyShards totalShards))
      else self.sendShards rendezvousSecs sessionId payload dataShards parityShards

end Fiudp.Sender
