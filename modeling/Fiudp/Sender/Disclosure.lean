import Fiudp.Sender.Stream

/-!
# What a session tells about its frame

Two sessions with the same settings and the same components, compared by what the
transport receives.  The packets determine the zero-padded frame and nothing more, as
long as neither the FEC engine nor the encryption loses the data.
-/

namespace Fiudp.Sender

open ByteLayout Protocol Interaction

variable {target : Target}

/-! ## Sessions that return `Ok` -/

/-- An encryption loop that returns its packets has been given full buffers. -/
theorem preparePackets_ok (builder : PacketBuilder) (sessionId : SessionId) (index : ℕ)
    (shards : List Slice) {trace : Trace Call (Reply target)} {packets : List Packet}
    (hreturns :
      Returns (preparePackets builder sessionId index shards).run trace (.ok packets)) :
    ∃ encrypted : List Sealed, encrypted.length = shards.length ∧
      (∀ item ∈ encrypted, item.buffer.length = shardSize) ∧
      trace = encryptEvents builder sessionId index shards encrypted ∧
      packets = packetsFrom builder index encrypted := by
  induction shards generalizing index trace packets with
  | nil =>
      obtain ⟨rfl, hpackets⟩ := (returns_done_iff _ _ _).mp hreturns
      exact ⟨[], rfl, by simp, rfl, Except.ok.inj hpackets⟩
  | cons shard shards ih =>
      rw [preparePackets] at hreturns
      by_cases hassert : target.debugAssertions ∧ shard.length ≠ shardSize
      · rw [if_pos hassert] at hreturns
        obtain ⟨-, hpanic⟩ := (returns_done_iff _ _ _).mp hreturns
        cases hpanic
      rw [if_neg hassert, returns_try_iff] at hreturns
      simp only [returns_encryptInPlace_iff] at hreturns
      rcases hreturns with ⟨failure, hfailure, -⟩ |
        ⟨first, second, item, rfl, ⟨reply, rfl, hreply⟩, hrest⟩
      · cases hfailure
      cases reply with
      | error error => cases hreply
      | ok encrypted =>
          cases hreply
          by_cases hlength : item.buffer.length = shardSize
          · rw [writePacket_eq_packetOf builder index hlength] at hrest
            obtain ⟨later, hlater, hresult⟩ := (returns_map_iff _ _ _ _).mp hrest
            cases later with
            | error error => cases hresult
            | ok rest =>
                cases hresult
                obtain ⟨tail, htail, hbuffers, rfl, rfl⟩ := ih (index + 1) hlater
                exact ⟨item :: tail, by rw [List.length_cons, htail, List.length_cons],
                  List.forall_mem_cons.mpr ⟨hlength, hbuffers⟩, rfl, rfl⟩
          · rw [PacketBuilder.writePacket_of_length_ne hlength] at hrest
            obtain ⟨-, herror⟩ := (returns_done_iff _ _ _).mp hrest
            cases herror

/-- The calls of a session that returns `Ok` with all chaos options off, whatever its
components do. -/
theorem send_quiet {self : FiudpSender} {ratio : ParityRatio} {rendezvousSecs : RendezvousSecs}
    {sessionId : SessionId} {trace : Trace Call (Reply target)}
    (hoff : self.chaosBurst = 0 ∧ self.chaosDrop = 0 ∧ self.chaosShuffle = false)
    (hreturns : Returns (self.send ratio rendezvousSecs sessionId).run trace (.ok ())) :
    ∃ (frame : ByteVec target) (fec : Trace Call (Reply target)) (slices : List Slice)
      (encrypted : List Sealed), Accepted ratio frame.val ∧ FecLeaves ratio frame.val fec slices ∧
      encrypted.length = slices.length ∧ (∀ item ∈ encrypted, item.buffer.length = shardSize) ∧
      trace = preparation ratio rendezvousSecs sessionId frame fec slices encrypted ++
        sendEvents self.delay encrypted.length 0
          (sessionPackets ratio rendezvousSecs sessionId frame.val encrypted) := by
  rcases returns_send hreturns with ⟨error, -, herror⟩ | ⟨frame, rest, rfl, hcases⟩
  · cases herror
  rcases hcases with ⟨-, -, herror⟩ | ⟨-, -, -, herror⟩ | ⟨haccepted, hrest⟩
  · cases herror
  · cases herror
  rw [FiudpSender.sendShards, returns_try_iff] at hrest
  rcases hrest with ⟨failure, hfailure, -⟩ | ⟨fec, rest, slices, rfl, hfec, hrest⟩
  · cases hfailure
  have hleaves : FecLeaves ratio frame.val fec slices := by
    rcases returns_fecStage _ _ _ hfec with ⟨hparity, rfl, hok⟩ | ⟨hparity, reply, rfl, hreply⟩
    · cases hok
      exact .skipped hparity
    · cases reply with
      | error error => cases hreply
      | ok out =>
          cases hreply
          exact .encoded out hparity
  rcases (returns_try_iff _ _ _ _).mp hrest with ⟨failure, hfailure, -⟩ |
    ⟨prepared, rest, ready, rfl, hprepare, hrest⟩
  · cases hfailure
  obtain ⟨encrypted, hlength, hbuffers, rfl, rfl⟩ := preparePackets_ok _ _ _ _ hprepare
  rcases (returns_try_iff _ _ _ _).mp hrest with ⟨failure, hfailure, -⟩ |
    ⟨draws, sends, final, rfl, hchaos, hsends⟩
  · cases hfailure
  have hfits : encrypted.length ≤ target.isizeMax := by
    have hguard := haccepted.fits
    have hisize := target.isizeMax_eq
    rw [hlength, hleaves.length_eq]
    omega
  obtain ⟨survivors, kept, -, -, hkept, -, hunfiltered⟩ :=
    returns_chaos _ _ (by rwa [length_packetsFrom]) hchaos
  cases hkept
  obtain ⟨rfl, rfl⟩ := hunfiltered hoff
  rcases returns_transmit _ _ _ _ hsends with ⟨rfl, -⟩ | ⟨sent, packet, error, -, -, herror⟩
  · refine ⟨frame, fec, slices, encrypted, haccepted, hleaves, hlength, hbuffers, ?_⟩
    rw [length_packetsFrom, preparation, List.cons_append, List.append_assoc]
    rfl
  · cases herror

/-! ## Deterministic components -/

/-- An FEC engine: the slices it leaves. -/
abbrev Engine := ℕ → ℕ → List Slice → Except FiudpError (List Slice)

/-- An encryption under a fixed key. -/
abbrev Cipher := Nonce → Aad → Slice → Except FiudpError Sealed

/-- The engine and the encryptor answer as these functions do. -/
def AnsweredAs (engine : Engine) (cipher : Cipher) : Event Call (Reply target) → Prop
  | ⟨.encode dataShards parityShards shards, reply⟩ =>
      reply.map Subtype.val = engine dataShards parityShards shards
  | ⟨.encryptInPlace nonce aad buffer, reply⟩ => reply = cipher nonce aad buffer
  | _ => True

def Cipher.Injective (cipher : Cipher) : Prop :=
  ∀ nonce aad left right item, cipher nonce aad left = .ok item →
    cipher nonce aad right = .ok item → left = right

/-- What the engine leaves determines the data slices it was given. -/
def Engine.DeterminesData (engine : Engine) : Prop :=
  ∀ parityShards left right out, left.length = right.length →
    engine left.length parityShards
      (left ++ List.replicate parityShards (List.replicate shardSize 0)) = .ok out →
    engine right.length parityShards
      (right ++ List.replicate parityShards (List.replicate shardSize 0)) = .ok out →
    left = right

/-- An engine that leaves the data slices as they were does not lose them. -/
theorem Engine.determinesData_of_keeps {engine : Engine}
    (hkeeps : ∀ dataShards parityShards shards out,
      engine dataShards parityShards shards = .ok out →
        out.take dataShards = shards.take dataShards) : engine.DeterminesData := by
  intro parityShards left right out hlength hleft hright
  have hfirst := hkeeps _ _ _ _ hleft
  have hsecond := hkeeps _ _ _ _ hright
  rw [List.take_left] at hfirst hsecond
  calc left = out.take left.length := hfirst.symm
    _ = out.take right.length := by rw [hlength]
    _ = right := hsecond

/-- The slices that are encrypted for a frame. -/
def Engine.output (engine : Engine) (ratio : ParityRatio) (frame : List UInt8) :
    Except FiudpError (List Slice) :=
  if parityCount ratio frame = 0 then .ok (sessionShards ratio frame)
  else engine (dataCount frame) (parityCount ratio frame) (sessionShards ratio frame)

theorem FecLeaves.output_eq {engine : Engine} {cipher : Cipher} {ratio : ParityRatio}
    {frame : List UInt8} {trace : Trace Call (Reply target)} {slices : List Slice}
    (hfec : FecLeaves ratio frame trace slices)
    (hanswered : ∀ event ∈ trace, AnsweredAs engine cipher event) :
    engine.output ratio frame = .ok slices := by
  cases hfec with
  | skipped hparity => rw [Engine.output, if_pos hparity]
  | encoded out hparity =>
      rw [Engine.output, if_neg hparity.ne']
      exact (hanswered _ List.mem_cons_self).symm

theorem mem_encryptEvents (builder : PacketBuilder) (sessionId : SessionId)
    {index position : ℕ} {shards : List Slice} {encrypted : List Sealed} {shard : Slice}
    {item : Sealed} (hshard : shards[position]? = some shard)
    (hitem : encrypted[position]? = some item) :
    encryptEvent builder sessionId (index + position) shard (.ok item) ∈
      (encryptEvents builder sessionId index shards encrypted : Trace Call (Reply target)) := by
  induction shards generalizing index position encrypted with
  | nil => simp at hshard
  | cons first shards ih =>
      cases encrypted with
      | nil => simp at hitem
      | cons head rest =>
          cases position with
          | zero =>
              cases hshard
              cases hitem
              exact List.mem_cons_self
          | succ position =>
              rw [← Nat.add_assoc, Nat.add_right_comm]
              exact List.mem_cons_of_mem _ (ih hshard hitem)

/-- The items a session puts into its packets are the encryptions of the slices its
engine leaves. -/
structure SealedSession (engine : Engine) (cipher : Cipher) (ratio : ParityRatio)
    (rendezvousSecs : RendezvousSecs) (sessionId : SessionId) (frame : List UInt8)
    (slices : List Slice) (encrypted : List Sealed) : Prop where
  accepted : Accepted ratio frame
  output_eq : engine.output ratio frame = .ok slices
  slices_length : slices.length = dataCount frame + parityCount ratio frame
  length_eq : encrypted.length = slices.length
  buffer_length : ∀ item ∈ encrypted, item.buffer.length = shardSize
  seals : ∀ index shard item, slices[index]? = some shard → encrypted[index]? = some item →
    cipher (Crypto.deriveNonce sessionId ⟨UInt16.ofNat index⟩)
      ((frameBuilder ratio rendezvousSecs sessionId frame).buildAad ⟨UInt16.ofNat index⟩)
      shard = .ok item

/-- The packets handed to the transport. -/
def handedOver (trace : Trace Call (Reply target)) : List Packet :=
  (record trace).transmissions.map Transmission.packet

/-- A session of `frame` that returns `Ok` with all chaos options off. -/
structure QuietRun (engine : Engine) (cipher : Cipher) (sender : FiudpSender)
    (ratio : ParityRatio) (rendezvousSecs : RendezvousSecs) (sessionId : SessionId)
    (frame : List UInt8) (trace : Trace Call (Reply target)) : Prop where
  off : sender.chaosBurst = 0 ∧ sender.chaosDrop = 0 ∧ sender.chaosShuffle = false
  answered : ∀ event ∈ trace, AnsweredAs engine cipher event
  returns : Returns (sender.send ratio rendezvousSecs sessionId).run trace (.ok ())
  read : frameRead trace = some frame

theorem QuietRun.session {engine : Engine} {cipher : Cipher} {sender : FiudpSender}
    {ratio : ParityRatio} {rendezvousSecs : RendezvousSecs} {sessionId : SessionId}
    {frame : List UInt8} {trace : Trace Call (Reply target)}
    (hrun : QuietRun engine cipher sender ratio rendezvousSecs sessionId frame trace) :
    ∃ slices encrypted,
      SealedSession engine cipher ratio rendezvousSecs sessionId frame slices encrypted ∧
      handedOver trace = sessionPackets ratio rendezvousSecs sessionId frame encrypted := by
  obtain ⟨bytes, fec, slices, encrypted, haccepted, hfec, hlength, hbuffers, htrace⟩ :=
    send_quiet hrun.off hrun.returns
  have hread := hrun.read
  have hanswered := hrun.answered
  rw [htrace] at hread hanswered
  cases hread
  rw [preparation, List.cons_append, List.append_assoc] at hanswered
  simp only [List.forall_mem_cons, List.forall_mem_append] at hanswered
  obtain ⟨-, hengine, hcipher, -⟩ := hanswered
  refine ⟨slices, encrypted, ⟨haccepted, hfec.output_eq hengine, hfec.length_eq, hlength,
    hbuffers, ?_⟩, ?_⟩
  · intro index shard item hshard hitem
    have hevent := hcipher _ (mem_encryptEvents _ sessionId hshard hitem)
    rw [Nat.zero_add] at hevent
    exact hevent.symm
  · rw [handedOver, htrace, record_append, record_preparation _ _ _ hfec, record_sendEvents]
    simp [Function.comp_def]

/-! ## Packets as a code -/

theorem take_packetOf (builder : PacketBuilder) (index : ℕ) {item : Sealed}
    (hlength : item.buffer.length = shardSize) :
    (packetOf builder index item).toList.take aadSize =
      (builder.buildAad ⟨UInt16.ofNat index⟩).toList := by
  rw [toList_packetOf builder index hlength, List.append_assoc]
  exact List.take_left' (Bytes.length_toList _)

theorem packetOf_injective (builder : PacketBuilder) (index : ℕ) {left right : Sealed}
    (hleft : left.buffer.length = shardSize) (hright : right.buffer.length = shardSize)
    (heq : packetOf builder index left = packetOf builder index right) : left = right := by
  have hlists := congrArg Bytes.toList heq
  rw [toList_packetOf builder index hleft, toList_packetOf builder index hright,
    List.append_assoc, List.append_assoc, List.append_cancel_left_eq] at hlists
  obtain ⟨htag, hbuffer⟩ := List.append_inj hlists (by simp)
  cases left
  cases right
  rw [Sealed.mk.injEq]
  exact ⟨Bytes.ext htag, hbuffer⟩

theorem packetsFrom_injective (builder : PacketBuilder) (index : ℕ) {left right : List Sealed}
    (hleft : ∀ item ∈ left, item.buffer.length = shardSize)
    (hright : ∀ item ∈ right, item.buffer.length = shardSize)
    (heq : packetsFrom builder index left = packetsFrom builder index right) :
    left = right := by
  induction left generalizing index right with
  | nil =>
      cases right with
      | nil => rfl
      | cons item right => cases heq
  | cons item left ih =>
      cases right with
      | nil => cases heq
      | cons other right =>
          obtain ⟨hhead, htail⟩ := List.cons.inj heq
          simp only [List.forall_mem_cons] at hleft hright
          rw [packetOf_injective builder index hleft.1 hright.1 hhead,
            ih (index + 1) hleft.2 hright.2 htail]

theorem frameBuilder_congr (ratio : ParityRatio) (rendezvousSecs : RendezvousSecs)
    (sessionId : SessionId) {left right : List UInt8}
    (hcount : dataCount left = dataCount right) :
    frameBuilder ratio rendezvousSecs sessionId left =
      frameBuilder ratio rendezvousSecs sessionId right := by
  rw [frameBuilder, frameBuilder, parityCount, parityCount, hcount]

/-! ## Two sessions -/

section TwoSessions

variable {engine : Engine} {cipher : Cipher} {ratio : ParityRatio}
  {rendezvousSecs : RendezvousSecs} {sessionId : SessionId} {left right : List UInt8}
  {leftSlices rightSlices : List Slice} {leftSealed rightSealed : List Sealed}

/-- The first header tells the number of data shards. -/
theorem SealedSession.dataCount_eq
    (hleft : SealedSession engine cipher ratio rendezvousSecs sessionId left leftSlices
      leftSealed)
    (hright : SealedSession engine cipher ratio rendezvousSecs sessionId right rightSlices
      rightSealed)
    (heq : sessionPackets ratio rendezvousSecs sessionId left leftSealed =
      sessionPackets ratio rendezvousSecs sessionId right rightSealed) :
    dataCount left = dataCount right := by
  have hleftCount := dataCount_pos hleft.accepted.nonempty
  have hrightCount := dataCount_pos hright.accepted.nonempty
  have hleftLength := hleft.length_eq.trans hleft.slices_length
  have hrightLength := hright.length_eq.trans hright.slices_length
  obtain ⟨item, leftRest, rfl⟩ := List.exists_cons_of_length_pos
    (show 0 < leftSealed.length by omega)
  obtain ⟨other, rightRest, rfl⟩ := List.exists_cons_of_length_pos
    (show 0 < rightSealed.length by omega)
  obtain ⟨hhead, -⟩ := List.cons.inj heq
  have hheaders := congrArg (fun packet => Header.read (Bytes.toList packet)) hhead
  simp only [read_packetOf _ _ (hleft.buffer_length _ List.mem_cons_self),
    read_packetOf _ _ (hright.buffer_length _ List.mem_cons_self)] at hheaders
  have hcounts := congrArg (fun header => header.dataShards.raw.toNat) hheaders
  have hleftFits := hleft.accepted.fits
  have hrightFits := hright.accepted.fits
  change (UInt16.ofNat (dataCount left)).toNat = (UInt16.ofNat (dataCount right)).toNat at hcounts
  rwa [toNat_ofNat_of_le (by omega), toNat_ofNat_of_le (by omega)] at hcounts

/-- Equal encryptions come from equal slices. -/
theorem SealedSession.slices_eq (hinjective : cipher.Injective)
    (hleft : SealedSession engine cipher ratio rendezvousSecs sessionId left leftSlices
      leftSealed)
    (hright : SealedSession engine cipher ratio rendezvousSecs sessionId right rightSlices
      leftSealed)
    (hcount : dataCount left = dataCount right) : leftSlices = rightSlices := by
  have hlength : leftSlices.length = rightSlices.length :=
    hleft.length_eq.symm.trans hright.length_eq
  apply List.ext_getElem hlength
  intro index hindex hother
  have hitem : index < leftSealed.length := by rwa [hleft.length_eq]
  have hfirst := hleft.seals index _ _ (List.getElem?_eq_getElem hindex)
    (List.getElem?_eq_getElem hitem)
  have hsecond := hright.seals index _ _ (List.getElem?_eq_getElem hother)
    (List.getElem?_eq_getElem hitem)
  rw [frameBuilder_congr ratio rendezvousSecs sessionId hcount] at hfirst
  exact hinjective _ _ _ _ _ hfirst hsecond

/-- Equal slices are encrypted to equal items. -/
theorem SealedSession.sealed_eq
    (hleft : SealedSession engine cipher ratio rendezvousSecs sessionId left leftSlices
      leftSealed)
    (hright : SealedSession engine cipher ratio rendezvousSecs sessionId right leftSlices
      rightSealed)
    (hcount : dataCount left = dataCount right) : leftSealed = rightSealed := by
  have hlength : leftSealed.length = rightSealed.length :=
    hleft.length_eq.trans hright.length_eq.symm
  apply List.ext_getElem hlength
  intro index hindex hother
  have hslice : index < leftSlices.length := by rwa [← hleft.length_eq]
  have hfirst := hleft.seals index _ _ (List.getElem?_eq_getElem hslice)
    (List.getElem?_eq_getElem hindex)
  have hsecond := hright.seals index _ _ (List.getElem?_eq_getElem hslice)
    (List.getElem?_eq_getElem hother)
  rw [frameBuilder_congr ratio rendezvousSecs sessionId hcount] at hfirst
  exact Except.ok.inj (hfirst.symm.trans hsecond)

theorem Engine.output_congr (engine : Engine) (ratio : ParityRatio)
    (hcount : dataCount left = dataCount right) (hpadded : paddedFrame left = paddedFrame right) :
    engine.output ratio left = engine.output ratio right := by
  rw [Engine.output, Engine.output, sessionShards, sessionShards, parityCount, parityCount,
    hcount, hpadded]

/-- The data slices of a padded frame join to it, so an engine that does not lose them
does not lose the frame. -/
theorem Engine.DeterminesData.paddedFrame_eq (hengine : engine.DeterminesData)
    {out : List Slice} (hcount : dataCount left = dataCount right)
    (hleft : engine.output ratio left = .ok out) (hright : engine.output ratio right = .ok out) :
    paddedFrame left = paddedFrame right := by
  have hparity : parityCount ratio left = parityCount ratio right := by
    rw [parityCount, hcount, parityCount]
  have hblocks (frame : List UInt8) :
      (Blocks.chunksExact shardSize (paddedFrame frame)).length = dataCount frame :=
    Blocks.length_chunksExact_padded shardSize_pos 0 frame
  have hjoin (frame : List UInt8) :
      (Blocks.chunksExact shardSize (paddedFrame frame)).flatten = paddedFrame frame :=
    Blocks.flatten_chunksExact_padded shardSize_pos 0 frame
  have hchunks : Blocks.chunksExact shardSize (paddedFrame left) =
      Blocks.chunksExact shardSize (paddedFrame right) := by
    by_cases hnone : parityCount ratio right = 0
    · rw [Engine.output, hparity, if_pos hnone] at hleft
      rw [Engine.output, if_pos hnone] at hright
      have hshards : sessionShards ratio left = sessionShards ratio right :=
        Except.ok.inj (hleft.trans hright.symm)
      rwa [sessionShards, sessionShards, hparity, plainShards, plainShards,
        List.append_cancel_right_eq] at hshards
    · rw [Engine.output, hparity, if_neg hnone, ← hblocks, sessionShards, hparity] at hleft
      rw [Engine.output, if_neg hnone, ← hblocks, sessionShards] at hright
      exact hengine _ _ _ _ (by rw [hblocks, hblocks, hcount]) hleft hright
  rw [← hjoin left, ← hjoin right, hchunks]

/-- Number and headers of the packets of a session. -/
theorem SealedSession.headers_eq
    (hsession : SealedSession engine cipher ratio rendezvousSecs sessionId left leftSlices
      leftSealed) :
    (sessionPackets ratio rendezvousSecs sessionId left leftSealed).map
        (fun packet => packet.toList.take aadSize) =
      (List.range (dataCount left + parityCount ratio left)).map fun index =>
        ((frameBuilder ratio rendezvousSecs sessionId left).buildAad
          ⟨UInt16.ofNat index⟩).toList := by
  have hlength := hsession.length_eq.trans hsession.slices_length
  apply List.ext_getElem?
  intro index
  rw [List.getElem?_map, sessionPackets, getElem?_packetsFrom, List.getElem?_map, Nat.zero_add]
  by_cases hindex : index < leftSealed.length
  · rw [List.getElem?_eq_getElem hindex, List.getElem?_range (by omega), Option.map_some,
      Option.map_some, Option.map_some,
      take_packetOf _ _ (hsession.buffer_length _ (List.getElem_mem hindex))]
  · rw [List.getElem?_eq_none (by omega), List.getElem?_eq_none (by simp; omega)]
    rfl

end TwoSessions

/-- Two sessions that agree in everything but the frame, as the transport sees them. -/
structure Disclosure (engine : Engine) (left right : List UInt8)
    (leftTrace rightTrace : Trace Call (Reply target)) : Prop where
  /-- Whatever the engine does, trailing zeros inside the last shard are not disclosed. -/
  equal_of_zeros : (left.length + 1399) / 1400 = (right.length + 1399) / 1400 →
    (Blocks.ExtendedBy 0 left right ∨ Blocks.ExtendedBy 0 right left) →
      handedOver leftTrace = handedOver rightTrace
  /-- With an engine that does not lose its data, everything else is. -/
  equal_iff : engine.DeterminesData → (handedOver leftTrace = handedOver rightTrace ↔
    (left.length + 1399) / 1400 = (right.length + 1399) / 1400 ∧
      (Blocks.ExtendedBy 0 left right ∨ Blocks.ExtendedBy 0 right left))
  footprint : (left.length + 1399) / 1400 = (right.length + 1399) / 1400 →
    (handedOver leftTrace).length = (handedOver rightTrace).length ∧
      (handedOver leftTrace).map (fun packet => packet.toList.take aadSize) =
        (handedOver rightTrace).map fun packet => packet.toList.take aadSize
  packet_size : ∀ packet ∈ handedOver leftTrace ++ handedOver rightTrace,
    packet.toList.length = 1428

section Runs

variable {engine : Engine} {cipher : Cipher} {leftSender rightSender : FiudpSender}
  {ratio : ParityRatio} {rendezvousSecs : RendezvousSecs} {sessionId : SessionId}
  {left right : List UInt8} {leftTrace rightTrace : Trace Call (Reply target)}

/-- Sessions whose engine leaves equal slices send equal packets. -/
theorem handedOver_congr
    (hleft : QuietRun engine cipher leftSender ratio rendezvousSecs sessionId left leftTrace)
    (hright : QuietRun engine cipher rightSender ratio rendezvousSecs sessionId right rightTrace)
    (hcount : dataCount left = dataCount right)
    (houtput : engine.output ratio left = engine.output ratio right) :
    handedOver leftTrace = handedOver rightTrace := by
  obtain ⟨leftSlices, leftSealed, hleftSession, hleftPackets⟩ := hleft.session
  obtain ⟨rightSlices, rightSealed, hrightSession, hrightPackets⟩ := hright.session
  have hslices : leftSlices = rightSlices := Except.ok.inj
    (hleftSession.output_eq.symm.trans (houtput.trans hrightSession.output_eq))
  subst hslices
  rw [hleftPackets, hrightPackets, hleftSession.sealed_eq hrightSession hcount, sessionPackets,
    sessionPackets, frameBuilder_congr ratio rendezvousSecs sessionId hcount]

/-- What the transport receives determines the padded frame. -/
theorem paddedFrame_of_handedOver (hcipher : cipher.Injective)
    (hengine : engine.DeterminesData)
    (hleft : QuietRun engine cipher leftSender ratio rendezvousSecs sessionId left leftTrace)
    (hright : QuietRun engine cipher rightSender ratio rendezvousSecs sessionId right rightTrace)
    (heq : handedOver leftTrace = handedOver rightTrace) :
    paddedFrame left = paddedFrame right := by
  obtain ⟨leftSlices, leftSealed, hleftSession, hleftPackets⟩ := hleft.session
  obtain ⟨rightSlices, rightSealed, hrightSession, hrightPackets⟩ := hright.session
  rw [hleftPackets, hrightPackets] at heq
  have hcount := hleftSession.dataCount_eq hrightSession heq
  rw [sessionPackets, sessionPackets,
    frameBuilder_congr ratio rendezvousSecs sessionId hcount] at heq
  have hsealed : leftSealed = rightSealed := packetsFrom_injective _ 0
    hleftSession.buffer_length hrightSession.buffer_length heq
  subst hsealed
  have hslices := hleftSession.slices_eq hcipher hrightSession hcount
  subst hslices
  exact hengine.paddedFrame_eq hcount hleftSession.output_eq hrightSession.output_eq

theorem headers_congr
    (hleft : QuietRun engine cipher leftSender ratio rendezvousSecs sessionId left leftTrace)
    (hright : QuietRun engine cipher rightSender ratio rendezvousSecs sessionId right rightTrace)
    (hcount : dataCount left = dataCount right) :
    (handedOver leftTrace).map (fun packet => packet.toList.take aadSize) =
      (handedOver rightTrace).map fun packet => packet.toList.take aadSize := by
  obtain ⟨leftSlices, leftSealed, hleftSession, hleftPackets⟩ := hleft.session
  obtain ⟨rightSlices, rightSealed, hrightSession, hrightPackets⟩ := hright.session
  rw [hleftPackets, hrightPackets, hleftSession.headers_eq, hrightSession.headers_eq,
    frameBuilder_congr ratio rendezvousSecs sessionId hcount, parityCount, parityCount, hcount]

/-- A session tells the zero-padded form of its frame and nothing more about it. -/
theorem send_discloses_padded_frame (hcipher : cipher.Injective)
    (hleft : QuietRun engine cipher leftSender ratio rendezvousSecs sessionId left leftTrace)
    (hright : QuietRun engine cipher rightSender ratio rendezvousSecs sessionId right rightTrace) :
    Disclosure engine left right leftTrace rightTrace := by
  have hpadded : paddedFrame left = paddedFrame right ↔ dataCount left = dataCount right ∧
      (Blocks.ExtendedBy 0 left right ∨ Blocks.ExtendedBy 0 right left) :=
    Blocks.padded_eq_padded_iff shardSize_pos 0 left right
  have hzeros (hcount : dataCount left = dataCount right)
      (hextended : Blocks.ExtendedBy 0 left right ∨ Blocks.ExtendedBy 0 right left) :
      handedOver leftTrace = handedOver rightTrace :=
    handedOver_congr hleft hright hcount
      (engine.output_congr ratio hcount (hpadded.mpr ⟨hcount, hextended⟩))
  constructor
  case equal_of_zeros => exact hzeros
  case equal_iff =>
    intro hengine
    constructor
    · intro heq
      exact hpadded.mp (paddedFrame_of_handedOver hcipher hengine hleft hright heq)
    · rintro ⟨hcount, hextended⟩
      exact hzeros hcount hextended
  case footprint =>
    intro hcount
    have hheaders := headers_congr hleft hright hcount
    exact ⟨by simpa using congrArg List.length hheaders, hheaders⟩
  case packet_size => exact fun packet _ => Bytes.length_toList packet

end Runs

/-! ## Components that keep or lose the data -/

/-- An encryption that leaves the plaintext under a zero tag. -/
def plainCipher : Cipher := fun _ _ buffer => .ok ⟨Bytes.zeroes tagSize, buffer⟩

/-- An engine that rewrites each slice. -/
def mappingEngine (rewrite : Slice → Slice) : Engine := fun _ _ shards => .ok (shards.map rewrite)

theorem injective_plainCipher : plainCipher.Injective := by
  rintro nonce aad left right item hleft hright
  cases hleft
  cases hright
  rfl

theorem determinesData_mappingEngine_id : (mappingEngine id).DeterminesData := by
  apply Engine.determinesData_of_keeps
  rintro dataShards parityShards shards out hout
  cases hout
  rw [List.map_id]

def byteFrame (byte : UInt8) : ByteVec Target.release64 := ⟨[byte], sampleFrame.property⟩

theorem accepted_byteFrame (byte : UInt8) : Accepted sampleRatio (byteFrame byte).val :=
  ⟨List.cons_ne_nil byte [], accepted_sampleFrame.fits⟩

/-- The session that sends a frame of one byte. -/
def byteSession (rewrite : Slice → Slice) (byte : UInt8) :
    Execution Call (Reply Target.release64) (Result Unit) Unit :=
  (Components.accepting (byteFrame byte) rewrite).run sampleSender sampleRatio ⟨60⟩ ⟨1⟩

theorem quietRun_byteSession {rewrite : Slice → Slice}
    (hrewrite : ∀ shard, (rewrite shard).length = shard.length) (byte : UInt8) :
    QuietRun (mappingEngine rewrite) plainCipher sampleSender sampleRatio ⟨60⟩ ⟨1⟩ [byte]
      (byteSession rewrite byte).trace := by
  constructor
  case off => decide
  case answered =>
    rintro ⟨call, reply⟩ hmem
    have hreply := Components.reply_of_mem_run _ _ _ _ _ hmem
    cases call with
    | encode dataShards parityShards shards =>
        cases hreply
        rfl
    | encryptInPlace nonce aad buffer => exact hreply
    | readAll | sendPacket | sleep | genRangeTo | genPercent | shuffle => trivial
  case returns =>
    rw [← Components.value_accepting sampleSender sampleRatio ⟨60⟩ ⟨1⟩ (byteFrame byte)
      hrewrite (accepted_byteFrame byte)]
    exact Components.returns_run _ _ _ _ _
  case read => rfl

theorem send_discloses_padded_frame_sample :
    (mappingEngine id).DeterminesData ∧
      Disclosure (mappingEngine id) [1] [2] (byteSession id 1).trace (byteSession id 2).trace :=
  ⟨determinesData_mappingEngine_id,
    send_discloses_padded_frame injective_plainCipher (quietRun_byteSession (fun _ => rfl) 1)
      (quietRun_byteSession (fun _ => rfl) 2)⟩

/-- An engine that overwrites the data slices makes different frames look the same. -/
theorem send_discloses_nothing_overwritten :
    plainCipher.Injective ∧
      QuietRun (mappingEngine overwritingEngine) plainCipher sampleSender sampleRatio ⟨60⟩ ⟨1⟩
        [1] (byteSession overwritingEngine 1).trace ∧
      QuietRun (mappingEngine overwritingEngine) plainCipher sampleSender sampleRatio ⟨60⟩ ⟨1⟩
        [2] (byteSession overwritingEngine 2).trace ∧
      handedOver (byteSession overwritingEngine 1).trace =
        handedOver (byteSession overwritingEngine 2).trace ∧
      ¬ (Blocks.ExtendedBy (0 : UInt8) [1] [2] ∨ Blocks.ExtendedBy (0 : UInt8) [2] [1]) := by
  have hkeeps : ∀ shard, (overwritingEngine shard).length = shard.length :=
    fun shard => List.length_map _
  have hfirst := quietRun_byteSession hkeeps 1
  have hsecond := quietRun_byteSession hkeeps 2
  -- A shard is overwritten by 1400 times the same byte, whatever it was.
  have houtput (frame : List UInt8) (hcount : dataCount frame = 1) :
      (mappingEngine overwritingEngine).output sampleRatio frame =
        .ok (List.replicate 2 (List.replicate shardSize 7)) := by
    have hparity : parityCount sampleRatio frame = 1 := by rw [parityCount, hcount]; rfl
    have hlength : (sessionShards sampleRatio frame).length = 2 := by
      rw [length_sessionShards, hcount, hparity]
    rw [Engine.output, if_neg (by rw [hparity]; decide), mappingEngine, ← hlength]
    congr 1
    rw [List.eq_replicate_iff, List.length_map]
    refine ⟨rfl, fun shard hmem => ?_⟩
    obtain ⟨plain, hplain, rfl⟩ := List.mem_map.mp hmem
    rw [overwritingEngine, List.map_const', length_of_mem_sessionShards hplain]
  refine ⟨injective_plainCipher, hfirst, hsecond, ?_, ?_⟩
  · exact handedOver_congr hfirst hsecond rfl ((houtput [1] rfl).trans (houtput [2] rfl).symm)
  · rintro (⟨extra, hextended⟩ | ⟨extra, hextended⟩)
    · exact absurd (List.cons.inj hextended).1 (by decide)
    · exact absurd (List.cons.inj hextended).1 (by decide)

end Fiudp.Sender
