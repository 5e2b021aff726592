import Fiudp.Sender.Exits

/-!
# What the components observe

The record of a trace of `send` is what each component saw of it: the calls it
received, in order, with the answers it gave.
-/

namespace Fiudp.Sender

open ByteLayout Protocol Interaction

variable {target : Target}

/-- One call of the FEC engine. -/
structure Encoding where
  dataShards : ℕ
  parityShards : ℕ
  shards : List Slice
  reply : Except FiudpError (List Slice)

/-- One call of the encryptor. -/
structure Encryption where
  nonce : Nonce
  aad : Aad
  buffer : Slice
  reply : Except FiudpError Sealed

/-- One call of the transport. -/
structure Transmission where
  packet : Packet
  reply : Except FiudpError Unit

@[ext]
structure Record (target : Target) where
  encodings : List Encoding := []
  encryptions : List Encryption := []
  transmissions : List Transmission := []
  draws : Trace Call (Reply target) := []

instance : Append (Record target) where
  append first second :=
    { encodings := first.encodings ++ second.encodings
      encryptions := first.encryptions ++ second.encryptions
      transmissions := first.transmissions ++ second.transmissions
      draws := first.draws ++ second.draws }

/-- What a single event adds to the record. -/
def recordEvent : Event Call (Reply target) → Record target
  | ⟨.encode dataShards parityShards shards, reply⟩ =>
      { encodings := [⟨dataShards, parityShards, shards, reply.map Subtype.val⟩] }
  | ⟨.encryptInPlace nonce aad buffer, reply⟩ =>
      { encryptions := [⟨nonce, aad, buffer, reply⟩] }
  | ⟨.sendPacket packet, reply⟩ => { transmissions := [⟨packet, reply⟩] }
  | ⟨.genRangeTo max, reply⟩ => { draws := [⟨.genRangeTo max, reply⟩] }
  | ⟨.genPercent, reply⟩ => { draws := [⟨.genPercent, reply⟩] }
  | ⟨.shuffle packets, reply⟩ => { draws := [⟨.shuffle packets, reply⟩] }
  | ⟨.readAll, _⟩ | ⟨.sleep _, _⟩ => {}

def record : Trace Call (Reply target) → Record target
  | [] => {}
  | event :: trace => recordEvent event ++ record trace

section Append

variable (first second : Record target)

@[simp]
theorem encodings_append :
    (first ++ second).encodings = first.encodings ++ second.encodings := rfl

@[simp]
theorem encryptions_append :
    (first ++ second).encryptions = first.encryptions ++ second.encryptions := rfl

@[simp]
theorem transmissions_append :
    (first ++ second).transmissions = first.transmissions ++ second.transmissions := rfl

@[simp]
theorem draws_append : (first ++ second).draws = first.draws ++ second.draws := rfl

end Append

@[simp]
theorem record_nil : record ([] : Trace Call (Reply target)) = {} := rfl

@[simp]
theorem record_cons (event : Event Call (Reply target)) (trace : Trace Call (Reply target)) :
    record (event :: trace) = recordEvent event ++ record trace := rfl

@[simp]
theorem record_append (first second : Trace Call (Reply target)) :
    record (first ++ second) = record first ++ record second := by
  induction first with
  | nil => ext1 <;> simp
  | cons event first ih => ext1 <;> simp [ih]

/-- A call of the encryptor is an event of the trace. -/
theorem mem_encryptions_record {trace : Trace Call (Reply target)} {encryption : Encryption}
    (hmem : encryption ∈ (record trace).encryptions) :
    ⟨.encryptInPlace encryption.nonce encryption.aad encryption.buffer, encryption.reply⟩ ∈
      trace := by
  induction trace with
  | nil => simp at hmem
  | cons event trace ih =>
      rw [record_cons, encryptions_append, List.mem_append] at hmem
      rcases hmem with hhead | htail
      · obtain ⟨call, reply⟩ := event
        cases call with
        | encryptInPlace nonce aad buffer =>
            rw [List.mem_singleton.mp hhead]
            exact List.mem_cons_self
        | readAll | encode | sendPacket | sleep | genRangeTo | genPercent | shuffle =>
            exact absurd hhead List.not_mem_nil
      · exact List.mem_cons_of_mem _ (ih htail)

/-! ## The record of each stage -/

section Stages

variable (builder : PacketBuilder) (sessionId : SessionId)

/-- The encryption of the shard at position `index`, with its answer. -/
def encryptionOf (index : ℕ) (shard : Slice) (reply : Except FiudpError Sealed) :
    Encryption :=
  ⟨Crypto.deriveNonce sessionId ⟨UInt16.ofNat index⟩,
    builder.buildAad ⟨UInt16.ofNat index⟩, shard, reply⟩

/-- The successful encryptions of consecutive shards, from position `index` on. -/
def encryptionsFrom (index : ℕ) (shards : List Slice) (encrypted : List Sealed) :
    List Encryption :=
  (shards.zip encrypted).mapIdx fun position pair =>
    encryptionOf builder sessionId (index + position) pair.1 (.ok pair.2)

theorem record_encryptEvents (index : ℕ) (shards : List Slice) (encrypted : List Sealed) :
    record (encryptEvents builder sessionId index shards encrypted :
        Trace Call (Reply target)) =
      { encryptions := encryptionsFrom builder sessionId index shards encrypted } := by
  induction shards generalizing index encrypted with
  | nil => rfl
  | cons shard shards ih =>
      cases encrypted with
      | nil => rfl
      | cons head rest =>
          have hshift : encryptionsFrom builder sessionId index (shard :: shards) (head :: rest) =
              encryptionOf builder sessionId index shard (.ok head) ::
                encryptionsFrom builder sessionId (index + 1) shards rest := by
            simp [encryptionsFrom, List.mapIdx_cons, Nat.add_assoc, Nat.add_comm 1]
          rw [encryptEvents, record_cons, ih, hshift]
          rfl

theorem length_encryptionsFrom (index : ℕ) (shards : List Slice) (encrypted : List Sealed) :
    (encryptionsFrom builder sessionId index shards encrypted).length =
      min shards.length encrypted.length := by
  simp [encryptionsFrom]

theorem getElem?_encryptionsFrom {index position : ℕ} {shards : List Slice}
    {encrypted : List Sealed} {encryption : Encryption}
    (hencryption : (encryptionsFrom builder sessionId index shards encrypted)[position]? =
      some encryption) :
    ∃ shard item, shards[position]? = some shard ∧ encrypted[position]? = some item ∧
      encryption = encryptionOf builder sessionId (index + position) shard (.ok item) := by
  simp only [encryptionsFrom, List.getElem?_mapIdx, Option.map_eq_some_iff] at hencryption
  obtain ⟨pair, hpair, rfl⟩ := hencryption
  obtain ⟨hshard, hitem⟩ := List.getElem?_zip_eq_some.mp hpair
  exact ⟨pair.1, pair.2, hshard, hitem, rfl⟩

theorem map_reply_encryptionsFrom (index : ℕ) {shards : List Slice} {encrypted : List Sealed}
    (hlength : encrypted.length ≤ shards.length) :
    (encryptionsFrom builder sessionId index shards encrypted).map Encryption.reply =
      encrypted.map .ok := by
  apply List.ext_getElem
  · simp [length_encryptionsFrom, hlength]
  · intro position hleft hright
    simp [encryptionsFrom, encryptionOf]

theorem record_sendEvents (delay : Duration) (packetCount index : ℕ)
    (packets : List Packet) :
    record (sendEvents delay packetCount index packets : Trace Call (Reply target)) =
      { transmissions := packets.map (⟨·, .ok ()⟩) } := by
  induction packets generalizing index with
  | nil => rfl
  | cons packet packets ih =>
      rw [sendEvents, List.cons_append, record_cons, record_append, ih]
      by_cases hnext : index + 1 < packetCount
      · rw [if_pos hnext]
        rfl
      · rw [if_neg hnext]
        rfl

theorem record_of_draws {trace : Trace Call (Reply target)}
    (hdraws : ∀ event ∈ trace, event.call.IsDraw) : record trace = { draws := trace } := by
  induction trace with
  | nil => rfl
  | cons event trace ih =>
      simp only [List.forall_mem_cons] at hdraws
      obtain ⟨call, reply⟩ := event
      rw [record_cons, ih hdraws.2]
      cases call with
      | genRangeTo | genPercent | shuffle => rfl
      | readAll | encode | encryptInPlace | sendPacket | sleep => exact hdraws.1.elim

end Stages

/-- The FEC engine is called once, unless there is no parity. -/
def encodingsOf (ratio : ParityRatio) (frame : List UInt8) (slices : List Slice) :
    List Encoding :=
  if parityCount ratio frame = 0 then []
  else [⟨dataCount frame, parityCount ratio frame, sessionShards ratio frame, .ok slices⟩]

theorem FecLeaves.record_eq {ratio : ParityRatio} {frame : List UInt8}
    {trace : Trace Call (Reply target)} {slices : List Slice}
    (hfec : FecLeaves ratio frame trace slices) :
    record trace = { encodings := encodingsOf ratio frame slices } := by
  cases hfec with
  | skipped hparity =>
      rw [encodingsOf, if_pos hparity]
      rfl
  | encoded out hparity =>
      rw [encodingsOf, if_neg hparity.ne']
      rfl

theorem record_preparation {ratio : ParityRatio} (rendezvousSecs : RendezvousSecs)
    (sessionId : SessionId) {frame : ByteVec target} {fec : Trace Call (Reply target)}
    {slices : List Slice} (encrypted : List Sealed)
    (hfec : FecLeaves ratio frame.val fec slices) :
    record (preparation ratio rendezvousSecs sessionId frame fec slices encrypted) =
      { encodings := encodingsOf ratio frame.val slices
        encryptions := encryptionsFrom (frameBuilder ratio rendezvousSecs sessionId frame.val)
          sessionId 0 slices encrypted } := by
  rw [preparation, record_cons, record_append, hfec.record_eq, record_encryptEvents]
  ext1 <;> simp [recordEvent]

section Session

variable {self : FiudpSender} {ratio : ParityRatio} {rendezvousSecs : RendezvousSecs}
  {sessionId : SessionId} {frame : ByteVec target} {fec draws sends : Trace Call (Reply target)}
  {slices : List Slice} {encrypted : List Sealed} {final : List Packet}
  {sent : List Transmission}

theorem record_draws_append (hprepared : Prepared ratio frame fec slices encrypted)
    (hchaos : Returns (self.chaos
      (sessionPackets ratio rendezvousSecs sessionId frame.val encrypted)).run draws
      (.ok final))
    (hsends : record sends = { transmissions := sent }) :
    record (draws ++ sends) = { draws := draws, transmissions := sent } := by
  obtain ⟨survivors, kept, -, -, -, hdraws, -⟩ :=
    returns_chaos _ _ (hprepared.length_packets_le rendezvousSecs sessionId) hchaos
  rw [record_append, record_of_draws hdraws, hsends]
  ext1 <;> simp

/-- The record of a prepared session, with the packets sent so far. -/
theorem record_session (hprepared : Prepared ratio frame fec slices encrypted)
    (hchaos : Returns (self.chaos
      (sessionPackets ratio rendezvousSecs sessionId frame.val encrypted)).run draws
      (.ok final))
    (hsends : record sends = { transmissions := sent }) :
    record (preparation ratio rendezvousSecs sessionId frame fec slices encrypted ++
        (draws ++ sends)) =
      { encodings := encodingsOf ratio frame.val slices
        encryptions := encryptionsFrom (frameBuilder ratio rendezvousSecs sessionId frame.val)
          sessionId 0 slices encrypted
        transmissions := sent
        draws := draws } := by
  rw [record_append, record_preparation _ _ _ hprepared.fecLeaves,
    record_draws_append hprepared hchaos hsends]
  ext1 <;> simp

end Session

end Fiudp.Sender
