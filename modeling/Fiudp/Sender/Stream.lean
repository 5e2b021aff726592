import Fiudp.Sender.Components
import Fiudp.Sender.Observations

/-!
# The packet stream of a session

What every packet of a session looks like on the wire, and the exact stream the
transport receives when no chaos option is on.
-/

namespace Fiudp.Sender

open ByteLayout Protocol Interaction

variable {target : Target}

/-- The packet at position `index` of a session carries the encryption of
`plaintext`, and its header says so. -/
structure CarriesShard (sessionId : SessionId) (rendezvousSecs : RendezvousSecs)
    (dataShards parityShards index : ℕ) (plaintext : Slice) (encryption : Encryption)
    (packet : Packet) : Prop where
  length_eq : packet.toList.length = 1428
  sessionId_eq : (Header.read packet.toList).sessionId = sessionId
  shardIndex_eq : (Header.read packet.toList).shardIndex.raw.toNat = index
  dataShards_eq : (Header.read packet.toList).dataShards.raw.toNat = dataShards
  parityShards_eq : (Header.read packet.toList).parityShards.raw.toNat = parityShards
  rendezvousSecs_eq : (Header.read packet.toList).rendezvousSecs = rendezvousSecs
  nonce_eq : encryption.nonce.toList =
    sessionId.toBeBytes.toList ++ beBytes 2 index ++ List.replicate 8 0
  nonce_read : encryption.nonce.toList = slice packet.toList 0 4 ++ List.replicate 8 0
  aad_eq : encryption.aad.toList = slice packet.toList 0 12
  buffer_eq : encryption.buffer = plaintext
  encrypted : ∃ item, encryption.reply = .ok item ∧
    slice packet.toList 12 16 = item.tag.toList ∧ slice packet.toList 28 1400 = item.buffer

section Packet

variable (sessionId : SessionId) (rendezvousSecs : RendezvousSecs)
  {dataShards parityShards index : ℕ}

theorem carriesShard_packetOf (hindex : index < dataShards + parityShards)
    (hfits : dataShards + parityShards ≤ 65535) (shard : Slice) {item : Sealed}
    (hbuffer : item.buffer.length = shardSize) :
    CarriesShard sessionId rendezvousSecs dataShards parityShards index shard
      (encryptionOf (sessionBuilder sessionId rendezvousSecs dataShards parityShards)
        sessionId index shard (.ok item))
      (packetOf (sessionBuilder sessionId rendezvousSecs dataShards parityShards)
        index item) := by
  have hlist := toList_packetOf (sessionBuilder sessionId rendezvousSecs dataShards parityShards)
    index hbuffer
  have hheader := read_packetOf
    (sessionBuilder sessionId rendezvousSecs dataShards parityShards) index hbuffer
  constructor
  case length_eq => exact Bytes.length_toList _
  case sessionId_eq => rw [hheader]; rfl
  case shardIndex_eq => rw [hheader]; exact toNat_ofNat_of_le (by omega)
  case dataShards_eq => rw [hheader]; exact toNat_ofNat_of_le (by omega)
  case parityShards_eq => rw [hheader]; exact toNat_ofNat_of_le (by omega)
  case rendezvousSecs_eq => rw [hheader]; rfl
  case nonce_eq =>
    rw [encryptionOf, Crypto.toList_deriveNonce]
    change _ ++ beBytes 2 (UInt16.ofNat index).toNat ++ _ = _
    rw [toNat_ofNat_of_le (by omega)]
  case nonce_read =>
    rw [hlist, List.append_assoc, Crypto.toList_deriveNonce_eq_buildAad]
    rfl
  case aad_eq =>
    rw [hlist, List.append_assoc, slice_zero _ _ (by simp; rfl)]
    rfl
  case buffer_eq => rfl
  case encrypted =>
    refine ⟨item, rfl, ?_, ?_⟩
    · rw [hlist, List.append_assoc, slice_append _ _ _ (by simp; rfl) (by simp; rfl)]
    · rw [hlist]
      exact slice_end _ _ (by simp; rfl) hbuffer

end Packet

/-! ## The stream without chaos -/

/-- Block `index` of the zero-padded frame. -/
def frameBlock (frame : List UInt8) (index : ℕ) : List UInt8 :=
  slice (paddedFrame frame) (index * 1400) 1400

/-- The record of a session that sent `frame` without chaos, where the FEC engine
left `slices`. -/
structure SessionStream (ratio : ParityRatio) (rendezvousSecs : RendezvousSecs)
    (sessionId : SessionId) (frame : List UInt8) (dataShards parityShards : ℕ)
    (slices : List Slice) (trace : Trace Call (Reply target)) : Prop where
  data_shards_eq : dataShards = (frame.length + 1399) / 1400
  parity_least : IsLeast {parity | ratio.percent.toNat * dataShards ≤ 100 * parity} parityShards
  slices_length : slices.length = dataShards + parityShards
  /-- One call of the FEC engine, or none; the parity slices it is given are zero. -/
  encodings_eq : (record trace).encodings =
    if parityShards = 0 then []
    else [⟨dataShards, parityShards,
      (List.range dataShards).map (frameBlock frame) ++
        List.replicate parityShards (List.replicate 1400 0), .ok slices⟩]
  slices_of_no_parity : parityShards = 0 →
    slices = (List.range dataShards).map (frameBlock frame)
  encodes_first : ∃ before after, trace = before ++ after ∧
    (record before).encryptions = [] ∧ (record after).encodings = []
  encryptions_length : (record trace).encryptions.length = dataShards + parityShards
  transmissions_length : (record trace).transmissions.length = dataShards + parityShards
  transmissions_ok : ∀ sent ∈ (record trace).transmissions, sent.reply = .ok ()
  carries : ∀ index < dataShards + parityShards, ∃ plaintext encryption sent,
    slices[index]? = some plaintext ∧ (record trace).encryptions[index]? = some encryption ∧
      (record trace).transmissions[index]? = some sent ∧
      CarriesShard sessionId rendezvousSecs dataShards parityShards index plaintext
        encryption sent.packet
  /-- An engine that leaves the data slices alone has the blocks of the frame sent. -/
  carries_blocks :
    slices.take dataShards = (List.range dataShards).map (frameBlock frame) →
      ∀ index < dataShards, slices[index]? = some (frameBlock frame index)

theorem chunksExact_paddedFrame (frame : List UInt8) :
    Blocks.chunksExact shardSize (paddedFrame frame) =
      (List.range (dataCount frame)).map (frameBlock frame) := by
  rw [Blocks.chunksExact, length_paddedFrame_div]
  rfl

theorem sessionShards_eq (ratio : ParityRatio) (frame : List UInt8) :
    sessionShards ratio frame =
      (List.range (dataCount frame)).map (frameBlock frame) ++
        List.replicate (parityCount ratio frame) (List.replicate 1400 0) := by
  rw [sessionShards, plainShards, chunksExact_paddedFrame]
  rfl

section Session

variable {self : FiudpSender} {ratio : ParityRatio} {rendezvousSecs : RendezvousSecs}
  {sessionId : SessionId} {frame : ByteVec target} {fec draws : Trace Call (Reply target)}
  {slices : List Slice} {encrypted : List Sealed} {final : List Packet}

/-- Each packet of a prepared session carries the slice at its index. -/
theorem Prepared.carriesShard (hprepared : Prepared ratio frame fec slices encrypted)
    (rendezvousSecs : RendezvousSecs) (sessionId : SessionId) {index : ℕ}
    (hindex : index < dataCount frame.val + parityCount ratio frame.val) :
    ∃ plaintext encryption packet, slices[index]? = some plaintext ∧
      (encryptionsFrom (frameBuilder ratio rendezvousSecs sessionId frame.val) sessionId 0
        slices encrypted)[index]? = some encryption ∧
      (sessionPackets ratio rendezvousSecs sessionId frame.val encrypted)[index]? =
        some packet ∧
      CarriesShard sessionId rendezvousSecs (dataCount frame.val)
        (parityCount ratio frame.val) index plaintext encryption packet := by
  have hslices : index < slices.length := by rwa [hprepared.fecLeaves.length_eq]
  have hencrypted : index < encrypted.length := by rwa [hprepared.length_eq]
  refine ⟨slices[index], _, _, List.getElem?_eq_getElem hslices, ?_, ?_,
    carriesShard_packetOf sessionId rendezvousSecs hindex hprepared.accepted.fits
      slices[index] (hprepared.buffer_length _ (List.getElem_mem hencrypted))⟩
  · simp [encryptionsFrom, hslices, hencrypted, frameBuilder]
  · rw [sessionPackets, getElem?_packetsFrom, List.getElem?_eq_getElem hencrypted,
      Nat.zero_add]
    rfl

theorem slices_of_no_parity (hprepared : Prepared ratio frame fec slices encrypted)
    (hparity : parityCount ratio frame.val = 0) :
    slices = (List.range (dataCount frame.val)).map (frameBlock frame.val) := by
  cases hprepared.fecLeaves with
  | skipped => rw [sessionShards_eq, hparity, List.replicate_zero, List.append_nil]
  | encoded out hpositive => exact absurd hparity hpositive.ne'

/-- The record of a completed session whose filters left every packet. -/
theorem sessionStream_of_prepared (hprepared : Prepared ratio frame fec slices encrypted)
    (hchaos : Returns (self.chaos
      (sessionPackets ratio rendezvousSecs sessionId frame.val encrypted)).run draws
      (.ok final))
    (hfinal : draws = [] ∧
      final = sessionPackets ratio rendezvousSecs sessionId frame.val encrypted) :
    SessionStream ratio rendezvousSecs sessionId frame.val (dataCount frame.val)
      (parityCount ratio frame.val) slices
      (preparation ratio rendezvousSecs sessionId frame fec slices encrypted ++
        (draws ++ sendEvents self.delay final.length 0 final)) := by
  have hrecord := record_session hprepared hchaos
    (record_sendEvents self.delay final.length 0 final)
  obtain ⟨rfl, rfl⟩ := hfinal
  have hcount := hprepared.fecLeaves.length_eq
  constructor
  case data_shards_eq => exact shardCount_eq _
  case parity_least => exact ratio.isLeast_parityCount _
  case slices_length => exact hcount
  case encodings_eq =>
    rw [hrecord, ← sessionShards_eq]
    rfl
  case slices_of_no_parity => exact slices_of_no_parity hprepared
  case encodes_first =>
    refine ⟨⟨.readAll, .ok frame⟩ :: fec, _, by rw [preparation, List.cons_append,
      List.append_assoc, List.cons_append], ?_, ?_⟩
    · simp [recordEvent, hprepared.fecLeaves.record_eq]
    · simp [record_encryptEvents, record_sendEvents]
  case encryptions_length =>
    rw [hrecord, length_encryptionsFrom, hprepared.length_eq, min_self, hcount]
  case transmissions_length =>
    rw [hrecord, List.length_map, length_sessionPackets, hprepared.length_eq, hcount]
  case transmissions_ok =>
    rw [hrecord]
    simp
  case carries =>
    intro index hindex
    obtain ⟨plaintext, encryption, packet, hplaintext, hencryption, hpacket, hcarries⟩ :=
      hprepared.carriesShard rendezvousSecs sessionId hindex
    refine ⟨plaintext, encryption, ⟨packet, .ok ()⟩, hplaintext, ?_, ?_, hcarries⟩
    · rwa [hrecord]
    · rw [hrecord, List.getElem?_map, hpacket]
      rfl
  case carries_blocks =>
    intro hblocks index hindex
    rw [← List.getElem?_take_of_lt hindex, hblocks]
    simp [hindex]

end Session

/-- The exact packet stream of a session without chaos. -/
theorem send_stream {self : FiudpSender} {ratio : ParityRatio}
    {rendezvousSecs : RendezvousSecs} {sessionId : SessionId}
    {trace : Trace Call (Reply target)}
    (hkeeps : ∀ event ∈ trace, KeepsLengths event)
    (hoff : self.chaosBurst = 0 ∧ self.chaosDrop = 0 ∧ self.chaosShuffle = false)
    (hreturns : Returns (self.send ratio rendezvousSecs sessionId).run trace (.ok ())) :
    ∃ frame slices, frameRead trace = some frame ∧
      SessionStream ratio rendezvousSecs sessionId frame (dataCount frame)
        (parityCount ratio frame) slices trace := by
  obtain ⟨frame, fec, draws, slices, encrypted, final, hprepared, hchaos, rfl⟩ :=
    send_completed hkeeps hreturns
  obtain ⟨survivors, kept, -, -, hkept, -, hunfiltered⟩ :=
    returns_chaos _ _ (hprepared.length_packets_le rendezvousSecs sessionId) hchaos
  cases hkept
  exact ⟨frame.val, slices, rfl,
    sessionStream_of_prepared hprepared hchaos (hunfiltered hoff)⟩

theorem send_stream_sample :
    ∃ frame slices, frameRead (sampleRun id).trace = some frame ∧
      SessionStream sampleRatio ⟨60⟩ ⟨1⟩ frame (dataCount frame)
        (parityCount sampleRatio frame) slices (sampleRun id).trace :=
  send_stream (keepsLengths_sampleRun fun _ => rfl) (by decide)
    (returns_sampleRun fun _ => rfl)

/-- An engine that overwrites the data slices it is given. -/
def overwritingEngine (shard : Slice) : Slice := shard.map fun _ => 7

/-- The plaintext of a data packet is what the engine left, not always the block
of the frame. -/
theorem send_stream_overwritten :
    (∀ event ∈ (sampleRun overwritingEngine).trace, KeepsLengths event) ∧
      (sampleRun overwritingEngine).value = .ok () ∧
      frameRead (sampleRun overwritingEngine).trace = some sampleFrame.val ∧
      ∃ encryption, (record (sampleRun overwritingEngine).trace).encryptions[0]? =
        some encryption ∧ encryption.buffer ≠ frameBlock sampleFrame.val 0 := by
  have hengine : ∀ shard, (overwritingEngine shard).length = shard.length :=
    fun shard => List.length_map _
  have hkeeps := keepsLengths_sampleRun hengine
  refine ⟨hkeeps, value_sampleRun hengine, ?_⟩
  have hreply (event : Event Call (Reply Target.release64))
      (hmem : event ∈ (sampleRun overwritingEngine).trace) := reply_of_mem_sampleRun hmem
  obtain ⟨frame, fec, draws, slices, encrypted, final, hprepared, hchaos, htrace⟩ :=
    send_completed hkeeps (returns_sampleRun hengine)
  rw [htrace] at hreply ⊢
  have hframe : frame = sampleFrame :=
    Except.ok.inj (hreply ⟨.readAll, .ok frame⟩ (by simp [preparation]))
  subst hframe
  obtain ⟨plaintext, encryption, packet, hplaintext, hencryption, -, hcarries⟩ :=
    hprepared.carriesShard ⟨60⟩ ⟨1⟩ (show 0 < _ by decide)
  refine ⟨rfl, encryption, ?_, ?_⟩
  · rw [record_session hprepared hchaos (record_sendEvents _ _ _ final)]
    exact hencryption
  · have hslices : slices =
        (sessionShards sampleRatio sampleFrame.val).map overwritingEngine := by
      cases hprepared.fecLeaves with
      | skipped hparity => exact absurd hparity (by decide)
      | encoded out hparity =>
          have hencode := hreply (encodeEvent sampleRatio sampleFrame.val (.ok out))
            (by simp [preparation, encodeEvent])
          rw [Except.ok.inj hencode]
    have hhead : (frameBlock sampleFrame.val 0).head? = some 1 := rfl
    have hcount : dataCount sampleFrame.val = 1 := rfl
    rw [hcarries.buffer_eq]
    rintro rfl
    rw [hslices, sessionShards_eq, hcount] at hplaintext
    have hfilled : overwritingEngine (frameBlock sampleFrame.val 0) =
        frameBlock sampleFrame.val 0 := Option.some.inj hplaintext
    have hseven : (frameBlock sampleFrame.val 0).head? = some 7 := by
      rw [← hfilled, overwritingEngine, List.head?_map, hhead]
      rfl
    rw [hhead] at hseven
    exact absurd hseven (by decide)

end Fiudp.Sender
