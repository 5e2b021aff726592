import Fiudp.Wire.Protocol

/-!
# The packet encoding

The seven values of a packet, the packet `build_aad` and `write_packet` make of
them, and the values read back at the published offsets.  Either map undoes the
other, so every string of the packet size is the packet of one tuple of values.
-/

namespace Fiudp.Protocol

open ByteLayout

/-- The values of a packet: five header fields, the tag and the payload. -/
@[ext]
structure Fields where
  header : Header
  tag : Tag
  payload : Bytes shardSize

namespace Fields

/-- The builder of the session the values belong to. -/
def builder (fields : Fields) : PacketBuilder where
  sessionId := fields.header.sessionId
  rendezvousSecs := fields.header.rendezvousSecs
  dataShards := fields.header.dataShards
  parityShards := fields.header.parityShards

/-- `write_packet` with the AAD from `build_aad`. -/
def write (fields : Fields) (out : Packet) : Result Unit × Packet :=
  PacketBuilder.writePacket out (fields.builder.buildAad fields.header.shardIndex) fields.tag
    fields.payload.toList

/-- The values at the published offsets. -/
def read (packet : Packet) : Fields where
  header := Header.read packet.toList
  tag := ⟨slice packet.toList tagOffset tagSize,
    length_slice _ (by rw [packet.length_toList]; decide)⟩
  payload := ⟨slice packet.toList payloadOffset shardSize,
    length_slice _ (by rw [packet.length_toList]; decide)⟩

variable (fields : Fields) (out : Packet)

theorem write_ok : (fields.write out).1 = .ok () :=
  (PacketBuilder.writePacket_of_length fields.payload.length_toList _ _ _).1

/-- The packet is the concatenation of its fields; nothing of the buffer is left. -/
theorem toList_write : (fields.write out).2.toList =
    (fields.builder.buildAad fields.header.shardIndex).toList ++ fields.tag.toList ++
      fields.payload.toList :=
  (PacketBuilder.writePacket_of_length fields.payload.length_toList _ _ _).2

theorem read_write : read (fields.write out).2 = fields := by
  apply Fields.ext
  · change Header.read (fields.write out).2.toList = fields.header
    rw [toList_write, List.append_assoc]
    exact read_buildAad_append _ _ _
  · apply Bytes.ext
    change slice (fields.write out).2.toList tagOffset tagSize = fields.tag.toList
    rw [toList_write, List.append_assoc]
    exact slice_append _ _ _ (Bytes.length_toList _) (Bytes.length_toList _)
  · apply Bytes.ext
    change slice (fields.write out).2.toList payloadOffset shardSize = fields.payload.toList
    rw [toList_write]
    apply slice_end
    · rw [List.length_append, Bytes.length_toList, Bytes.length_toList]
      rfl
    · exact Bytes.length_toList _

/-- The header of the values read from a packet is its first range. -/
theorem toList_buildAad_read (packet : Packet) :
    ((read packet).builder.buildAad (read packet).header.shardIndex).toList =
      slice packet.toList 0 aadSize := by
  have hfield (start : ℕ) (hfits : start + 2 ≤ packetSize) :
      (u16ToBeBytes (u16FromBeBytes (slice packet.toList start 2))).toList =
        slice packet.toList start 2 :=
    u16ToBeBytes_fromBeBytes (length_slice _ (by rwa [packet.length_toList]))
  have hsecs : (u32ToBeBytes (u32FromBeBytes (slice packet.toList 8 4))).toList =
      slice packet.toList 8 4 :=
    u32ToBeBytes_fromBeBytes (length_slice _ (by rw [packet.length_toList]; decide))
  rw [PacketBuilder.toList_buildAad]
  calc _ = slice packet.toList 0 2 ++ slice packet.toList 2 2 ++ slice packet.toList 4 2 ++
        slice packet.toList 6 2 ++ slice packet.toList 8 4 := by
        rw [← hfield 0 (by decide), ← hfield 2 (by decide), ← hfield 4 (by decide),
          ← hfield 6 (by decide), ← hsecs]
        rfl
    _ = slice packet.toList 0 aadSize := by
        rw [slice_append_slice _ 0 2 2, slice_append_slice _ 0 4 2, slice_append_slice _ 0 6 2,
          slice_append_slice _ 0 8 4]
        rfl

theorem write_read (packet : Packet) : ((read packet).write out).2 = packet := by
  apply Bytes.ext
  calc ((read packet).write out).2.toList
      = slice packet.toList 0 aadSize ++ slice packet.toList (0 + aadSize) tagSize ++
          slice packet.toList (0 + (aadSize + tagSize)) shardSize := by
        rw [toList_write, toList_buildAad_read]
        rfl
    _ = slice packet.toList 0 packetSize := by
        rw [slice_append_slice, slice_append_slice]
        rfl
    _ = packet.toList := List.take_of_length_le packet.length_toList.le

end Fields

/-- Packet encoding is a bijection from the values of a packet to the strings of the
packet size, whatever the buffer held, and a payload of another size is rejected
with the buffer as it was. -/
theorem packet_encoding :
    (∀ (fields : Fields) (out : Packet),
        (fields.write out).1 = .ok () ∧ Fields.read (fields.write out).2 = fields) ∧
      (∀ (fields : Fields) (out other : Packet), (fields.write out).2 = (fields.write other).2) ∧
      (∀ out : Packet, Function.Bijective fun fields : Fields => (fields.write out).2) ∧
      ∀ (out : Packet) (aad : Aad) (tag : Tag) (payload : List UInt8),
        payload.length ≠ shardSize → PacketBuilder.writePacket out aad tag payload =
          (.error (.error (.invalidShardSize payload.length shardSize)), out) := by
  refine ⟨fun fields out => ⟨fields.write_ok out, fields.read_write out⟩, ?_, ?_, ?_⟩
  · intro fields out other
    apply Bytes.ext
    rw [Fields.toList_write, Fields.toList_write]
  · intro out
    rw [Function.bijective_iff_has_inverse]
    exact ⟨Fields.read, fun fields => fields.read_write out, Fields.write_read out⟩
  · intro out aad tag payload hsize
    exact PacketBuilder.writePacket_of_length_ne hsize out aad tag

end Fiudp.Protocol
