import Fiudp.Base.Target
import Fiudp.Core.Blocks
import Fiudp.Wire.Types

/-!
# Wire format

The size and offset constants of `protocol.rs`, the packet builder and the
padding of a frame, and what a receiver reads back from a packet.
-/

namespace Fiudp.Protocol

open ByteLayout

/-! ## Size and offset constants -/

def shardSize : ℕ := 1400
def nonceSize : ℕ := 12
def tagSize : ℕ := 16
def rendezvousSize : ℕ := 4
def sessionIdSize : ℕ := 2
def shardIndexSize : ℕ := 2
def dataShardsSize : ℕ := 2
def parityShardsSize : ℕ := 2

def aadSize : ℕ :=
  sessionIdSize + shardIndexSize + dataShardsSize + parityShardsSize + rendezvousSize

def headerSize : ℕ := aadSize + tagSize

def packetSize : ℕ := headerSize + shardSize

def sessionIdOffset : ℕ := 0
def shardIndexOffset : ℕ := sessionIdOffset + sessionIdSize
def dataShardsOffset : ℕ := shardIndexOffset + shardIndexSize
def parityShardsOffset : ℕ := dataShardsOffset + dataShardsSize
def rendezvousOffset : ℕ := parityShardsOffset + parityShardsSize
def tagOffset : ℕ := rendezvousOffset + rendezvousSize
def payloadOffset : ℕ := tagOffset + tagSize

abbrev Nonce := Bytes nonceSize
abbrev Tag := Bytes tagSize
abbrev Aad := Bytes aadSize
abbrev Packet := Bytes packetSize

theorem aadSize_eq : aadSize = 12 := rfl

theorem packetSize_eq : packetSize = 1428 := rfl

/-! ## Packet builder -/

structure PacketBuilder where
  sessionId : SessionId
  rendezvousSecs : RendezvousSecs
  dataShards : DataShardCount
  parityShards : ParityShardCount

namespace PacketBuilder

/-- `build_aad`: the five header fields, copied to their offsets. -/
def buildAad (builder : PacketBuilder) (shardIndex : ShardIndex) : Aad :=
  (Bytes.zeroes aadSize)
    |>.copyFromSlice sessionIdOffset builder.sessionId.toBeBytes (by decide)
    |>.copyFromSlice shardIndexOffset shardIndex.toBeBytes (by decide)
    |>.copyFromSlice dataShardsOffset builder.dataShards.toBeBytes (by decide)
    |>.copyFromSlice parityShardsOffset builder.parityShards.toBeBytes (by decide)
    |>.copyFromSlice rendezvousOffset builder.rendezvousSecs.toBeBytes (by decide)

/-- `write_packet`: what it returns and the buffer it leaves. -/
def writePacket (out : Packet) (aad : Aad) (tag : Tag) (payload : List UInt8) :
    Result Unit × Packet :=
  if hsize : payload.length ≠ shardSize then
    (.error (.error (.invalidShardSize payload.length shardSize)), out)
  else
    let payload : Bytes shardSize := ⟨payload, not_not.mp hsize⟩
    (.ok (), out
      |>.copyFromSlice 0 aad (by decide)
      |>.copyFromSlice tagOffset tag (by decide)
      |>.copyFromSlice payloadOffset payload (by decide))

/-- The header is the concatenation of its fields in wire order. -/
theorem toList_buildAad (builder : PacketBuilder) (shardIndex : ShardIndex) :
    (builder.buildAad shardIndex).toList =
      builder.sessionId.toBeBytes.toList ++ shardIndex.toBeBytes.toList ++
        builder.dataShards.toBeBytes.toList ++ builder.parityShards.toBeBytes.toList ++
        builder.rendezvousSecs.toBeBytes.toList := by
  simp only [buildAad, Bytes.toList_copyFromSlice]
  rw [sessionIdOffset, overwrite_zero,
    overwrite_append _ _ _ shardIndexOffset (by simp; rfl),
    overwrite_append _ _ _ dataShardsOffset (by simp; rfl),
    overwrite_append _ _ _ parityShardsOffset (by simp; rfl),
    overwrite_append _ _ _ rendezvousOffset (by simp; rfl)]
  simp [Bytes.zeroes, aadSize_eq]

theorem writePacket_of_length {payload : List UInt8}
    (hsize : payload.length = shardSize) (out : Packet) (aad : Aad) (tag : Tag) :
    (writePacket out aad tag payload).1 = .ok () ∧
      (writePacket out aad tag payload).2.toList =
        aad.toList ++ tag.toList ++ payload := by
  have hout : out.toList.length = 1428 := out.length_toList
  have haad : aad.toList.length = 12 := aad.length_toList
  have htag : tag.toList.length = 16 := tag.length_toList
  have hpayload : payload.length = 1400 := hsize
  simp only [writePacket, hsize, ne_eq, not_true_eq_false, dite_false,
    Bytes.toList_copyFromSlice, true_and]
  rw [overwrite_zero, overwrite_append _ _ _ tagOffset haad,
    overwrite_append _ _ _ payloadOffset (by simp [haad, htag]; rfl)]
  simp [haad, htag, hpayload, hout]

theorem writePacket_of_length_ne {payload : List UInt8}
    (hsize : payload.length ≠ shardSize) (out : Packet) (aad : Aad) (tag : Tag) :
    writePacket out aad tag payload =
      (.error (.error (.invalidShardSize payload.length shardSize)), out) := by
  simp [writePacket, hsize]

end PacketBuilder

/-! ## Reading a packet back -/

/-- The five header fields. -/
structure Header where
  sessionId : SessionId
  shardIndex : ShardIndex
  dataShards : DataShardCount
  parityShards : ParityShardCount
  rendezvousSecs : RendezvousSecs
  deriving DecidableEq

/-- The big-endian fields at the published offsets. -/
def Header.read (packet : List UInt8) : Header where
  sessionId := ⟨u16FromBeBytes (slice packet sessionIdOffset sessionIdSize)⟩
  shardIndex := ⟨u16FromBeBytes (slice packet shardIndexOffset shardIndexSize)⟩
  dataShards := ⟨u16FromBeBytes (slice packet dataShardsOffset dataShardsSize)⟩
  parityShards := ⟨u16FromBeBytes (slice packet parityShardsOffset parityShardsSize)⟩
  rendezvousSecs := ⟨u32FromBeBytes (slice packet rendezvousOffset rendezvousSize)⟩

/-- Whatever follows the header, its fields are read back as they were given to
the builder. -/
theorem read_buildAad_append (builder : PacketBuilder) (shardIndex : ShardIndex)
    (rest : List UInt8) :
    Header.read ((builder.buildAad shardIndex).toList ++ rest) =
      ⟨builder.sessionId, shardIndex, builder.dataShards, builder.parityShards,
        builder.rendezvousSecs⟩ := by
  rw [PacketBuilder.toList_buildAad]
  simp only [Header.read, List.append_assoc]
  congr 2
  · rw [sessionIdOffset, slice_zero _ _ (by simp [sessionIdSize])]
    exact u16FromBeBytes_toBeBytes _
  · rw [slice_append _ _ _ (by simp; rfl) (by simp [shardIndexSize])]
    exact u16FromBeBytes_toBeBytes _
  · rw [← List.append_assoc, slice_append _ _ _ (by simp; rfl) (by simp [dataShardsSize])]
    exact u16FromBeBytes_toBeBytes _
  · rw [← List.append_assoc, ← List.append_assoc,
      slice_append _ _ _ (by simp; rfl) (by simp [parityShardsSize])]
    exact u16FromBeBytes_toBeBytes _
  · rw [← List.append_assoc, ← List.append_assoc, ← List.append_assoc,
      slice_append _ _ _ (by simp; rfl) (by simp [rendezvousSize])]
    exact u32FromBeBytes_toBeBytes _

/-! ## Padding -/

/-- `Vec::resize` with the byte `0`. -/
def resize (buf : List UInt8) (newLen : ℕ) : List UInt8 :=
  buf.take newLen ++ List.replicate (newLen - buf.length) 0

/-- `pad_to_shard_size`. -/
def padToShardSize (target : Target) (buf : List UInt8) : Result (List UInt8) :=
  let rem := buf.length % shardSize
  if rem = 0 then .ok buf
  else do
    let newLen ← target.add buf.length (shardSize - rem)
    pure (resize buf newLen)

/-- The frame completed with zeros to full shards. -/
def paddedFrame (frame : List UInt8) : List UInt8 :=
  Blocks.padded shardSize 0 frame

/-- `ceil(length / 1400)`. -/
def shardCount (length : ℕ) : ℕ :=
  Blocks.blockCount shardSize length

theorem shardCount_eq (length : ℕ) : shardCount length = (length + 1399) / 1400 := rfl

theorem shardSize_pos : 0 < shardSize := by decide

/-- A vector's length leaves room for the padding on the word sizes there are, so
`pad_to_shard_size` does what its name says. -/
theorem padToShardSize_eq (target : Target) {buf : List UInt8}
    (hlength : buf.length ≤ target.isizeMax) :
    padToShardSize target buf = .ok (paddedFrame buf) := by
  have husize := target.usizeMax_eq
  have hisize := target.isizeMax_eq
  have hsize : shardSize = 1400 := rfl
  have hcount : Blocks.blockCount shardSize buf.length = (buf.length + 1399) / 1400 := rfl
  by_cases hrem : buf.length % shardSize = 0
  · have hnone : Blocks.blockCount shardSize buf.length * shardSize - buf.length = 0 := by
      rw [hcount, hsize]
      rw [hsize] at hrem
      omega
    simp [padToShardSize, hrem, paddedFrame, Blocks.padded, hnone]
  · have hnew : buf.length + (shardSize - buf.length % shardSize) =
        Blocks.blockCount shardSize buf.length * shardSize := by
      rw [hcount, hsize]
      rw [hsize] at hrem
      omega
    have hfits : buf.length + (shardSize - buf.length % shardSize) ≤ target.usizeMax := by
      rw [hsize]
      omega
    have htake : buf.length ≤ Blocks.blockCount shardSize buf.length * shardSize :=
      Blocks.length_le_blockCount_mul shardSize_pos _
    rw [padToShardSize, if_neg hrem, Target.add_eq_ok hfits, hnew]
    change Except.ok (resize buf _) = _
    rw [resize, List.take_of_length_le htake]
    rfl

end Fiudp.Protocol
