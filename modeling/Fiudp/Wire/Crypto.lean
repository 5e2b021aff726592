import Fiudp.Wire.Protocol

/-!
# Nonce derivation

The nonce is never transmitted: sender and receiver build it from `session_id`
and `shard_index`, followed by eight zero bytes.
-/

namespace Fiudp.Crypto

open ByteLayout Protocol

def deriveNonce (sessionId : SessionId) (shardIndex : ShardIndex) : Nonce :=
  (Bytes.zeroes nonceSize)
    |>.copyFromSlice 0 sessionId.toBeBytes (by decide)
    |>.copyFromSlice 2 shardIndex.toBeBytes (by decide)

theorem toList_deriveNonce (sessionId : SessionId) (shardIndex : ShardIndex) :
    (deriveNonce sessionId shardIndex).toList =
      sessionId.toBeBytes.toList ++ shardIndex.toBeBytes.toList ++ List.replicate 8 0 := by
  simp only [deriveNonce, Bytes.toList_copyFromSlice]
  rw [overwrite_zero, overwrite_append _ _ _ 2 (by simp)]
  simp [Bytes.zeroes, nonceSize]

/-- Two shards share a nonce only if they share their session and their index. -/
theorem deriveNonce_injective {leftId rightId : SessionId} {left right : ShardIndex}
    (heq : deriveNonce leftId left = deriveNonce rightId right) :
    leftId = rightId ∧ left = right := by
  have hlists := congrArg Bytes.toList heq
  rw [toList_deriveNonce, toList_deriveNonce, List.append_assoc, List.append_assoc] at hlists
  obtain ⟨hid, hrest⟩ := List.append_inj hlists (by simp)
  obtain ⟨hindex, -⟩ := List.append_inj hrest (by simp)
  have hidRaw := u16ToBeBytes_injective (Bytes.ext hid)
  have hindexRaw := u16ToBeBytes_injective (Bytes.ext hindex)
  cases leftId
  cases rightId
  cases left
  cases right
  simp_all

/-- The nonce the receiver derives from the first four bytes of a packet is the
one the sender used for it. -/
theorem toList_deriveNonce_eq_buildAad (builder : PacketBuilder) (shardIndex : ShardIndex)
    (rest : List UInt8) :
    slice ((builder.buildAad shardIndex).toList ++ rest) 0 4 ++ List.replicate 8 0 =
      (deriveNonce builder.sessionId shardIndex).toList := by
  rw [toList_deriveNonce, PacketBuilder.toList_buildAad]
  simp only [List.append_assoc]
  rw [← List.append_assoc builder.sessionId.toBeBytes.toList,
    slice_zero _ _ (by simp)]
  simp

end Fiudp.Crypto
