import Fiudp.Sender.Disclosure
import Fiudp.Sender.Chaos
import Fiudp.Sender.Nonces

/-!
# Sessions that have been launched

What every call of `send` has encrypted, and what it has put together before the first
packet leaves, whatever its components answer.
-/

namespace Fiudp.Sender

open ByteLayout Protocol Interaction

variable {target : Target}

/-! ## What is encrypted -/

theorem encryptions_of_draws {trace : Trace Call (Reply target)}
    (hdraws : ∀ event ∈ trace, event.call.IsDraw) : (record trace).encryptions = [] := by
  rw [record_of_draws hdraws]

theorem encryptions_transmit {delay : Duration} {packetCount index : ℕ} {packets : List Packet}
    {trace : Trace Call (Reply target)} {result : Result Unit}
    (hreturns : Returns (transmit delay packetCount index packets).run trace result) :
    (record trace).encryptions = [] := by
  rcases returns_transmit _ _ _ _ hreturns with ⟨rfl, -⟩ | ⟨sent, packet, error, -, rfl, -⟩
  · rw [record_sendEvents]
  · rw [record_append, encryptions_append, record_sendEvents]
    rfl

theorem encryptions_transmission {self : FiudpSender} {ready : List Packet}
    (hlength : ready.length ≤ target.isizeMax) {trace : Trace Call (Reply target)}
    {result : Result Unit}
    (hreturns : Returns (do
      let final ← self.chaos ready
      transmit self.delay final.length 0 final : Pipeline target Unit).run trace result) :
    (record trace).encryptions = [] := by
  rcases (returns_try_iff _ _ _ _).mp hreturns with ⟨failure, -, hchaos⟩ |
    ⟨draws, sends, final, rfl, hchaos, hsends⟩
  · obtain ⟨-, -, -, -, -, hdraws, -⟩ := returns_chaos _ _ hlength hchaos
    exact encryptions_of_draws hdraws
  · obtain ⟨-, -, -, -, -, hdraws, -⟩ := returns_chaos _ _ hlength hchaos
    rw [record_append, encryptions_append, encryptions_of_draws hdraws,
      encryptions_transmit hsends, List.nil_append]

/-- The encryption loop encrypts the shards it is given, each at its position. -/
theorem encryptions_preparePackets {builder : PacketBuilder} {sessionId : SessionId}
    {index : ℕ} {shards : List Slice} {trace : Trace Call (Reply target)}
    {result : Result (List Packet)}
    (hreturns : Returns (preparePackets builder sessionId index shards).run trace result) :
    ∀ encryption ∈ (record trace).encryptions, ∃ position shard,
      shards[position]? = some shard ∧
      encryption = encryptionOf builder sessionId (index + position) shard encryption.reply := by
  induction shards generalizing index trace result with
  | nil =>
      obtain ⟨rfl, rfl⟩ := (returns_done_iff _ _ _).mp hreturns
      simp
  | cons shard shards ih =>
      rw [preparePackets] at hreturns
      split at hreturns
      · obtain ⟨rfl, rfl⟩ := (returns_done_iff _ _ _).mp hreturns
        simp
      have hfirst : ∀ reply, ∀ encryption ∈ (record [(encryptEvent builder sessionId index shard
          reply : Event Call (Reply target))]).encryptions, ∃ position other,
            (shard :: shards)[position]? = some other ∧ encryption =
              encryptionOf builder sessionId (index + position) other encryption.reply := by
        intro reply encryption hmem
        cases List.mem_singleton.mp hmem
        exact ⟨0, shard, rfl, rfl⟩
      rcases (returns_try_iff _ _ _ _).mp hreturns with ⟨failure, -, hencrypt⟩ |
        ⟨first, second, encrypted, rfl, hencrypt, hrest⟩
      · obtain ⟨reply, rfl, -⟩ := (returns_encryptInPlace_iff _ _ _ _ _).mp hencrypt
        exact hfirst reply
      obtain ⟨reply, rfl, -⟩ := (returns_encryptInPlace_iff _ _ _ _ _).mp hencrypt
      rw [record_append, encryptions_append, List.forall_mem_append]
      refine ⟨hfirst reply, ?_⟩
      generalize PacketBuilder.writePacket (Bytes.zeroes packetSize)
        (builder.buildAad ⟨UInt16.ofNat index⟩) encrypted.tag encrypted.buffer =
          assembled at hrest
      obtain ⟨written, packet⟩ := assembled
      cases written with
      | error failure =>
          obtain ⟨rfl, rfl⟩ := (returns_done_iff _ _ _).mp hrest
          simp
      | ok =>
          obtain ⟨later, hlater, rfl⟩ := (returns_map_iff _ _ _ _).mp hrest
          intro encryption hmem
          obtain ⟨position, other, hother, heq⟩ := ih hlater encryption hmem
          refine ⟨position + 1, other, hother, ?_⟩
          rwa [Nat.add_assoc, Nat.add_comm 1] at heq

section Session

variable {sender : FiudpSender} {ratio : ParityRatio} {rendezvousSecs : RendezvousSecs}
  {sessionId : SessionId}

/-- The FEC stage makes no encryption, and what it leaves is what the engine answered. -/
theorem fecLeaves_of_returns (frame : List UInt8) {trace : Trace Call (Reply target)}
    {result : Result (List Slice)}
    (hreturns : Returns (fecStage (dataCount frame) (parityCount ratio frame)
      (sessionShards ratio frame)).run trace result) :
    (record trace).encryptions = [] ∧ (record trace).transmissions = [] ∧
      ∀ slices, result = .ok slices → FecLeaves ratio frame trace slices := by
  rcases returns_fecStage _ _ _ hreturns with ⟨hparity, rfl, rfl⟩ | ⟨hparity, reply, rfl, rfl⟩
  · refine ⟨rfl, rfl, fun slices hok => ?_⟩
    cases hok
    exact .skipped hparity
  · refine ⟨rfl, rfl, fun slices hok => ?_⟩
    cases reply with
    | error error => cases hok
    | ok out =>
        cases hok
        exact .encoded out hparity

/-- What `send` encrypts are the slices the FEC stage has left of the frame it has read. -/
theorem encryptions_send {trace : Trace Call (Reply target)} {result : Result Unit}
    (hreturns : Returns (sender.send ratio rendezvousSecs sessionId).run trace result) :
    ∀ encryption ∈ (record trace).encryptions,
      ∃ (frame : ByteVec target) (fec : Trace Call (Reply target)) (slices : List Slice)
        (index : ℕ) (shard : Slice),
        frameRead trace = some frame.val ∧ Accepted ratio frame.val ∧
        FecLeaves ratio frame.val fec slices ∧ fec ⊆ trace ∧ slices[index]? = some shard ∧
        encryption = encryptionOf (frameBuilder ratio rendezvousSecs sessionId frame.val)
          sessionId index shard encryption.reply := by
  rcases returns_send hreturns with ⟨error, rfl, -⟩ | ⟨frame, rest, rfl, hcases⟩
  · simp [recordEvent]
  rcases hcases with ⟨-, rfl, -⟩ | ⟨-, -, rfl, -⟩ | ⟨haccepted, hrest⟩
  · simp [recordEvent]
  · simp [recordEvent]
  rw [record_cons, encryptions_append]
  rcases (returns_try_iff _ _ _ _).mp hrest with ⟨failure, -, hfec⟩ |
    ⟨fec, rest, slices, rfl, hfec, hrest⟩
  · obtain ⟨hnone, -⟩ := fecLeaves_of_returns frame.val hfec
    simp [recordEvent, hnone]
  obtain ⟨hnone, -, hleaves⟩ := fecLeaves_of_returns frame.val hfec
  have hslices := hleaves slices rfl
  have hsubset : fec ⊆ ⟨.readAll, .ok frame⟩ :: (fec ++ rest) :=
    fun event hmem => List.mem_cons_of_mem _ (List.mem_append_left _ hmem)
  have hread : frameRead (⟨.readAll, .ok frame⟩ :: (fec ++ rest)) = some frame.val := rfl
  -- The filters and the transmission encrypt nothing, so only the loop is left.
  have hprepared : ∃ (prepared : Result (List Packet)) (prepares : Trace Call (Reply target)),
      Returns (preparePackets (frameBuilder ratio rendezvousSecs sessionId frame.val) sessionId
        0 slices).run prepares prepared ∧
      (record rest).encryptions = (record prepares).encryptions := by
    rcases (returns_try_iff _ _ _ _).mp hrest with ⟨failure, -, hprepare⟩ |
      ⟨prepares, later, ready, rfl, hprepare, hlater⟩
    · exact ⟨_, rest, hprepare, rfl⟩
    · refine ⟨_, prepares, hprepare, ?_⟩
      have hfew : ready.length ≤ target.isizeMax := by
        have hisize := target.isizeMax_eq
        have hfits := haccepted.fits
        rw [(nonces_preparePackets hprepare).2 ready rfl, hslices.length_eq]
        omega
      rw [record_append, encryptions_append, encryptions_transmission hfew hlater,
        List.append_nil]
  obtain ⟨prepared, prepares, hprepare, hencryptions⟩ := hprepared
  intro encryption hmem
  rw [record_append, encryptions_append, hnone, List.nil_append, hencryptions] at hmem
  have hloop : encryption ∈ (record prepares).encryptions := by
    simpa [recordEvent] using hmem
  obtain ⟨position, shard, hshard, heq⟩ := encryptions_preparePackets hprepare encryption hloop
  rw [Nat.zero_add] at heq
  exact ⟨frame, fec, slices, position, shard, hread, haccepted, hslices, hsubset, hshard, heq⟩

/-! ## What is sent -/

/-- All shards of an accepted frame are in packets, and the filters have left `final` of
them. -/
structure Launched (sender : FiudpSender) (ratio : ParityRatio)
    (rendezvousSecs : RendezvousSecs) (sessionId : SessionId) (frame : ByteVec target)
    (fec draws : Trace Call (Reply target)) (slices : List Slice) (encrypted : List Sealed)
    (final : List Packet) : Prop where
  accepted : Accepted ratio frame.val
  fecLeaves : FecLeaves ratio frame.val fec slices
  length_eq : encrypted.length = slices.length
  buffer_length : ∀ item ∈ encrypted, item.buffer.length = shardSize
  chaos : Returns (sender.chaos
    (sessionPackets ratio rendezvousSecs sessionId frame.val encrypted)).run draws (.ok final)

/-- The encryption loop sends nothing. -/
theorem transmissions_preparePackets {builder : PacketBuilder} {sessionId : SessionId}
    {index : ℕ} {shards : List Slice} {trace : Trace Call (Reply target)}
    {result : Result (List Packet)}
    (hreturns : Returns (preparePackets builder sessionId index shards).run trace result) :
    (record trace).transmissions = [] := by
  induction shards generalizing index trace result with
  | nil =>
      obtain ⟨rfl, rfl⟩ := (returns_done_iff _ _ _).mp hreturns
      rfl
  | cons shard shards ih =>
      rw [preparePackets] at hreturns
      split at hreturns
      · obtain ⟨rfl, rfl⟩ := (returns_done_iff _ _ _).mp hreturns
        rfl
      rcases (returns_try_iff _ _ _ _).mp hreturns with ⟨failure, -, hencrypt⟩ |
        ⟨first, second, encrypted, rfl, hencrypt, hrest⟩
      · obtain ⟨reply, rfl, -⟩ := (returns_encryptInPlace_iff _ _ _ _ _).mp hencrypt
        rfl
      obtain ⟨reply, rfl, -⟩ := (returns_encryptInPlace_iff _ _ _ _ _).mp hencrypt
      rw [record_append, transmissions_append]
      generalize PacketBuilder.writePacket (Bytes.zeroes packetSize)
        (builder.buildAad ⟨UInt16.ofNat index⟩) encrypted.tag encrypted.buffer =
          assembled at hrest
      obtain ⟨written, packet⟩ := assembled
      cases written with
      | error failure =>
          obtain ⟨rfl, rfl⟩ := (returns_done_iff _ _ _).mp hrest
          rfl
      | ok =>
          obtain ⟨later, hlater, rfl⟩ := (returns_map_iff _ _ _ _).mp hrest
          rw [ih hlater]
          rfl

/-- A call of `send` sends nothing, or it has launched its session and is in the
transmission loop. -/
theorem send_launched {trace : Trace Call (Reply target)} {result : Result Unit}
    (hreturns : Returns (sender.send ratio rendezvousSecs sessionId).run trace result) :
    ((record trace).transmissions = [] ∧ result ≠ .ok ()) ∨
      ∃ (frame : ByteVec target) (fec draws sends : Trace Call (Reply target))
        (slices : List Slice) (encrypted : List Sealed) (final : List Packet),
        Launched sender ratio rendezvousSecs sessionId frame fec draws slices encrypted final ∧
        trace = preparation ratio rendezvousSecs sessionId frame fec slices encrypted ++
          (draws ++ sends) ∧
        Returns (transmit sender.delay final.length 0 final).run sends result := by
  rcases returns_send hreturns with ⟨error, rfl, rfl⟩ | ⟨frame, rest, rfl, hcases⟩
  · exact .inl ⟨rfl, nofun⟩
  rcases hcases with ⟨-, rfl, rfl⟩ | ⟨-, -, rfl, rfl⟩ | ⟨haccepted, hrest⟩
  · exact .inl ⟨rfl, nofun⟩
  · exact .inl ⟨rfl, nofun⟩
  rcases (returns_try_iff _ _ _ _).mp hrest with ⟨failure, rfl, hfec⟩ |
    ⟨fec, rest, slices, rfl, hfec, hrest⟩
  · obtain ⟨-, hquiet, -⟩ := fecLeaves_of_returns frame.val hfec
    exact .inl ⟨by simp [recordEvent, hquiet], nofun⟩
  obtain ⟨-, hquiet, hleaves⟩ := fecLeaves_of_returns frame.val hfec
  have hslices := hleaves slices rfl
  rcases (returns_try_iff _ _ _ _).mp hrest with ⟨failure, rfl, hprepare⟩ |
    ⟨prepares, later, ready, rfl, hprepare, hlater⟩
  · have hnone := transmissions_preparePackets hprepare
    exact .inl ⟨by simp [recordEvent, hquiet, hnone], nofun⟩
  obtain ⟨encrypted, hlength, hbuffers, rfl, rfl⟩ := preparePackets_ok _ _ _ _ hprepare
  have hfew : (packetsFrom (sessionBuilder sessionId rendezvousSecs (dataCount frame.val)
      (parityCount ratio frame.val)) 0 encrypted).length ≤ target.isizeMax := by
    have hisize := target.isizeMax_eq
    have hfits := haccepted.fits
    rw [length_packetsFrom, hlength, hslices.length_eq]
    omega
  rcases (returns_try_iff _ _ _ _).mp hlater with ⟨failure, -, hchaos⟩ |
    ⟨draws, sends, final, rfl, hchaos, hsends⟩
  · obtain ⟨kept, left, -, -, hok, -⟩ := returns_chaos _ _ hfew hchaos
    cases hok
  · refine .inr ⟨frame, fec, draws, sends, slices, encrypted, final,
      ⟨haccepted, hslices, hlength, hbuffers, hchaos⟩, ?_, hsends⟩
    rw [preparation, List.cons_append, List.append_assoc]
    rfl

/-- The burst step takes as many packets as it is set to, or all. -/
theorem BurstStep.length_eq {count : ℕ} {items remaining : List Packet}
    {trace : Trace Call (Reply target)} (hstep : BurstStep count items trace remaining) :
    remaining.length = items.length - min items.length count := by
  cases hstep with
  | off hzero => rw [hzero, Nat.min_zero, Nat.sub_zero]
  | removed before window after start _ hwindow =>
      have hlength : items.length = before.length + window.length + after.length := by
        rw [← List.length_append, ← List.length_append, ← hwindow.split]
      have hwidth := hwindow.width
      rw [List.length_append]
      omega

section Launched

variable {frame : ByteVec target} {fec draws : Trace Call (Reply target)} {slices : List Slice}
  {encrypted : List Sealed} {final : List Packet}

theorem Launched.length_packets_le
    (hlaunched : Launched sender ratio rendezvousSecs sessionId frame fec draws slices encrypted
      final) :
    (sessionPackets ratio rendezvousSecs sessionId frame.val encrypted).length ≤
      target.isizeMax := by
  have hfits := hlaunched.accepted.fits
  have hisize := target.isizeMax_eq
  rw [length_sessionPackets, hlaunched.length_eq, hlaunched.fecLeaves.length_eq]
  omega

/-- The filters leave a permutation of a subsequence of the packets. -/
theorem Launched.survivors
    (hlaunched : Launched sender ratio rendezvousSecs sessionId frame fec draws slices encrypted
      final) :
    (∃ kept, kept.Sublist (sessionPackets ratio rendezvousSecs sessionId frame.val encrypted) ∧
      final.Perm kept) ∧ ∀ event ∈ draws, event.call.IsDraw := by
  obtain ⟨kept, left, hsublist, hperm, hok, hdraws, -⟩ :=
    returns_chaos _ _ hlaunched.length_packets_le hlaunched.chaos
  cases hok
  exact ⟨⟨kept, hsublist, hperm⟩, hdraws⟩

/-- The packet at each position carries the slice at that position, as it was encrypted. -/
theorem Launched.carries
    (hlaunched : Launched sender ratio rendezvousSecs sessionId frame fec draws slices encrypted
      final) {index : ℕ} {packet : Packet}
    (hpacket : (sessionPackets ratio rendezvousSecs sessionId frame.val encrypted)[index]? =
      some packet) :
    ∃ shard item, slices[index]? = some shard ∧ encrypted[index]? = some item ∧
      index < dataCount frame.val + parityCount ratio frame.val ∧
      CarriesShard sessionId rendezvousSecs (dataCount frame.val) (parityCount ratio frame.val)
        index shard (encryptionOf (frameBuilder ratio rendezvousSecs sessionId frame.val)
          sessionId index shard (.ok item)) packet := by
  rw [sessionPackets, getElem?_packetsFrom, Nat.zero_add, Option.map_eq_some_iff] at hpacket
  obtain ⟨item, hitem, rfl⟩ := hpacket
  obtain ⟨hlt, -⟩ := List.getElem?_eq_some_iff.mp hitem
  have hslices : index < slices.length := hlaunched.length_eq ▸ hlt
  have hindex : index < dataCount frame.val + parityCount ratio frame.val := by
    rwa [← hlaunched.fecLeaves.length_eq]
  exact ⟨slices[index], item, List.getElem?_eq_getElem hslices, hitem, hindex,
    carriesShard_packetOf sessionId rendezvousSecs hindex hlaunched.accepted.fits _
      (hlaunched.buffer_length item (List.mem_of_getElem? hitem))⟩

/-- No two packets of a session have one index. -/
theorem Launched.pairwise_headerIndex
    (hlaunched : Launched sender ratio rendezvousSecs sessionId frame fec draws slices encrypted
      final) :
    (sessionPackets ratio rendezvousSecs sessionId frame.val encrypted).Pairwise
      fun packet later => headerIndex packet < headerIndex later := by
  rw [List.pairwise_iff_getElem]
  intro first second hfirst hsecond hlt
  obtain ⟨leftShard, leftItem, -, -, -, hleft⟩ :=
    hlaunched.carries (List.getElem?_eq_getElem hfirst)
  obtain ⟨rightShard, rightItem, -, -, -, hright⟩ :=
    hlaunched.carries (List.getElem?_eq_getElem hsecond)
  calc headerIndex _ = first := hleft.shardIndex_eq
    _ < second := hlt
    _ = headerIndex _ := hright.shardIndex_eq.symm

/-- The transmission loop sends the first packets that are left, each once. -/
theorem transmissions_transmit {delay : Duration} {packetCount index : ℕ}
    {packets : List Packet} {trace : Trace Call (Reply target)} {result : Result Unit}
    (hreturns : Returns (transmit delay packetCount index packets).run trace result) :
    (record trace).transmissions.map Transmission.packet <+: packets ∧
      (result = .ok () →
        (record trace).transmissions.map Transmission.packet = packets) := by
  rcases returns_transmit _ _ _ _ hreturns with ⟨rfl, rfl⟩ |
    ⟨sent, packet, error, hpacket, rfl, rfl⟩
  · have hall : (record (sendEvents delay packetCount index packets :
        Trace Call (Reply target))).transmissions.map Transmission.packet = packets := by
      rw [record_sendEvents]
      simp [Function.comp_def]
    rw [hall]
    exact ⟨List.prefix_rfl, fun _ => rfl⟩
  · refine ⟨?_, nofun⟩
    have hsent : (record (sendEvents delay packetCount index (packets.take sent) ++
        [⟨.sendPacket packet, .error error⟩] : Trace Call (Reply target))).transmissions.map
          Transmission.packet = packets.take (sent + 1) := by
      rw [record_append, transmissions_append, record_sendEvents, List.take_add_one, hpacket]
      simp [Function.comp_def, recordEvent]
    rw [hsent]
    exact List.take_prefix _ _

/-- The record of a launched session up to its first packet. -/
theorem Launched.record_eq
    (hlaunched : Launched sender ratio rendezvousSecs sessionId frame fec draws slices encrypted
      final) :
    (record (preparation ratio rendezvousSecs sessionId frame fec slices encrypted ++
        draws)).encryptions =
      encryptionsFrom (frameBuilder ratio rendezvousSecs sessionId frame.val) sessionId 0 slices
        encrypted ∧
      (record (preparation ratio rendezvousSecs sessionId frame fec slices encrypted ++
        draws)).transmissions = [] := by
  have hdraws := record_of_draws hlaunched.survivors.2
  rw [record_append, record_preparation _ _ _ hlaunched.fecLeaves, hdraws]
  exact ⟨List.append_nil _, rfl⟩

end Launched

end Session

end Fiudp.Sender
