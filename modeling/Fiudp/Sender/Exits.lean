import Fiudp.Sender.Stages

/-!
# The exits of `send`

Every way a call of `send` can end, with the calls it has made by then.  The
table has one entry for each error exit of the source and one for success; the
checks that padding makes redundant have none.
-/

namespace Fiudp.Sender

open ByteLayout Protocol Interaction

variable {target : Target}

/-- The frame the reader delivered. -/
def frameRead : Trace Call (Reply target) → Option (List UInt8)
  | ⟨.readAll, .ok frame⟩ :: _ => some frame.val
  | _ => none

/-- Number of data shards of a frame. -/
def dataCount (frame : List UInt8) : ℕ := shardCount frame.length

/-- Number of parity shards sent with a frame. -/
def parityCount (ratio : ParityRatio) (frame : List UInt8) : ℕ :=
  ratio.parityCount (dataCount frame)

/-- The frame passes the checks of `send`. -/
structure Accepted (ratio : ParityRatio) (frame : List UInt8) : Prop where
  nonempty : frame ≠ []
  fits : dataCount frame + parityCount ratio frame ≤ 65535

/-- The shards of a frame before FEC: its blocks and zeroed parity slices. -/
def sessionShards (ratio : ParityRatio) (frame : List UInt8) : List Slice :=
  plainShards (paddedFrame frame) (parityCount ratio frame)

/-- The FEC stage made the calls of the trace and left these slices. -/
inductive FecLeaves (ratio : ParityRatio) (frame : List UInt8) :
    Trace Call (Reply target) → List Slice → Prop
  | skipped : parityCount ratio frame = 0 → FecLeaves ratio frame [] (sessionShards ratio frame)
  | encoded (out : {out : List Slice // out.length = (sessionShards ratio frame).length}) :
      0 < parityCount ratio frame →
        FecLeaves ratio frame
          [⟨.encode (dataCount frame) (parityCount ratio frame) (sessionShards ratio frame),
            .ok out⟩] out.val

section Exits

variable (self : FiudpSender) (ratio : ParityRatio) (rendezvousSecs : RendezvousSecs)
  (sessionId : SessionId)

/-- The packet builder of a session that sends `frame`. -/
def frameBuilder (frame : List UInt8) : PacketBuilder :=
  sessionBuilder sessionId rendezvousSecs (dataCount frame) (parityCount ratio frame)

/-- The calls up to the encryption of the first `encrypted.length` shards. -/
def preparation (frame : ByteVec target) (fec : Trace Call (Reply target))
    (slices : List Slice) (encrypted : List Sealed) : Trace Call (Reply target) :=
  ⟨.readAll, .ok frame⟩ ::
    (fec ++ encryptEvents (frameBuilder ratio rendezvousSecs sessionId frame.val)
      sessionId 0 slices encrypted)

/-- The packets of a session, in shard order. -/
def sessionPackets (frame : List UInt8) (encrypted : List Sealed) : List Packet :=
  packetsFrom (frameBuilder ratio rendezvousSecs sessionId frame) 0 encrypted

/-- The encryption loop runs over full shards of an accepted frame. -/
structure Encrypting (frame : ByteVec target) (fec : Trace Call (Reply target))
    (slices : List Slice) (encrypted : List Sealed) : Prop where
  accepted : Accepted ratio frame.val
  fecLeaves : FecLeaves ratio frame.val fec slices
  slice_length : ∀ shard ∈ slices, shard.length = shardSize
  buffer_length : ∀ item ∈ encrypted, item.buffer.length = shardSize

/-- Every shard of an accepted frame has been encrypted. -/
structure Prepared (frame : ByteVec target) (fec : Trace Call (Reply target))
    (slices : List Slice) (encrypted : List Sealed) : Prop
    extends Encrypting ratio frame fec slices encrypted where
  length_eq : encrypted.length = slices.length

/-- Every ending of `send`: its calls in order, and its result. -/
inductive Exit : Trace Call (Reply target) → Result Unit → Prop
  | readFailed (error : FiudpError) :
      Exit [⟨.readAll, .error error⟩] (.error (.error error))
  | emptyInput (frame : ByteVec target) :
      frame.val = [] →
        Exit [⟨.readAll, .ok frame⟩] (.error (.error .emptyInput))
  | tooManyShards (frame : ByteVec target) :
      frame.val ≠ [] → 65535 < dataCount frame.val + parityCount ratio frame.val →
        Exit [⟨.readAll, .ok frame⟩] (.error (.error
          (.tooManyShards (dataCount frame.val + parityCount ratio frame.val))))
  | fecFailed (frame : ByteVec target) (error : FiudpError) :
      Accepted ratio frame.val → 0 < parityCount ratio frame.val →
        Exit [⟨.readAll, .ok frame⟩,
            ⟨.encode (dataCount frame.val) (parityCount ratio frame.val)
              (sessionShards ratio frame.val), .error error⟩]
          (.error (.error error))
  | encryptFailed (frame : ByteVec target) {fec : Trace Call (Reply target)}
      {slices : List Slice} (encrypted : List Sealed) (shard : Slice)
      (error : FiudpError) :
      Encrypting ratio frame fec slices encrypted →
      slices[encrypted.length]? = some shard →
        Exit (preparation ratio rendezvousSecs sessionId frame fec slices encrypted ++
            [encryptEvent (frameBuilder ratio rendezvousSecs sessionId frame.val)
              sessionId encrypted.length shard (.error error)])
          (.error (.error error))
  | sendFailed (frame : ByteVec target) {fec draws : Trace Call (Reply target)}
      {slices : List Slice} {encrypted : List Sealed} {final : List Packet} (sent : ℕ)
      (packet : Packet) (error : FiudpError) :
      Prepared ratio frame fec slices encrypted →
      Returns (self.chaos
        (sessionPackets ratio rendezvousSecs sessionId frame.val encrypted)).run draws
        (.ok final) →
      final[sent]? = some packet →
        Exit (preparation ratio rendezvousSecs sessionId frame fec slices encrypted ++
            (draws ++ (sendEvents self.delay final.length 0 (final.take sent) ++
              [⟨.sendPacket packet, .error error⟩])))
          (.error (.error error))
  | completed (frame : ByteVec target) {fec draws : Trace Call (Reply target)}
      {slices : List Slice} {encrypted : List Sealed} {final : List Packet} :
      Prepared ratio frame fec slices encrypted →
      Returns (self.chaos
        (sessionPackets ratio rendezvousSecs sessionId frame.val encrypted)).run draws
        (.ok final) →
        Exit (preparation ratio rendezvousSecs sessionId frame fec slices encrypted ++
            (draws ++ sendEvents self.delay final.length 0 final))
          (.ok ())

end Exits

/-! ## Shards after padding -/

theorem dataCount_pos {frame : List UInt8} (hframe : frame ≠ []) : 0 < dataCount frame :=
  Blocks.blockCount_pos shardSize_pos (List.length_pos_iff.mpr hframe)

/-- The second emptiness test of `send` looks at this number. -/
theorem length_paddedFrame_div (frame : List UInt8) :
    (paddedFrame frame).length / shardSize = dataCount frame := by
  rw [paddedFrame, Blocks.length_padded shardSize_pos, Nat.mul_div_cancel _ shardSize_pos]
  rfl

theorem length_sessionShards (ratio : ParityRatio) (frame : List UInt8) :
    (sessionShards ratio frame).length = dataCount frame + parityCount ratio frame := by
  simp only [sessionShards, plainShards, paddedFrame, List.length_append,
    List.length_replicate, Blocks.length_chunksExact_padded shardSize_pos]
  rfl

/-- Padding and chunking leave full shards only. -/
theorem length_of_mem_sessionShards {ratio : ParityRatio} {frame : List UInt8}
    {shard : Slice} (hmem : shard ∈ sessionShards ratio frame) : shard.length = shardSize := by
  rcases List.mem_append.mp hmem with hdata | hparity
  · exact Blocks.length_of_mem_chunksExact hdata
  · rw [List.eq_of_mem_replicate hparity, List.length_replicate]

/-- The shard counts of a frame a vector can hold add up without overflow. -/
theorem length_shards_le_usizeMax (ratio : ParityRatio) (frame : ByteVec target) :
    dataCount frame.val + parityCount ratio frame.val ≤ target.usizeMax := by
  have hparity := ratio.parityCount_le (dataCount frame.val)
  have hcount := shardCount_eq frame.val.length
  have hframe := frame.property
  have husize := target.usizeMax_eq
  have hisize := target.isizeMax_eq
  simp only [dataCount, parityCount] at *
  omega

theorem FecLeaves.length_eq {ratio : ParityRatio} {frame : List UInt8}
    {trace : Trace Call (Reply target)} {slices : List Slice}
    (hfec : FecLeaves ratio frame trace slices) :
    slices.length = dataCount frame + parityCount ratio frame := by
  cases hfec with
  | skipped => exact length_sessionShards ratio frame
  | encoded out => rw [out.property, length_sessionShards]

theorem FecLeaves.length_of_mem {ratio : ParityRatio} {frame : List UInt8}
    {trace : Trace Call (Reply target)} {slices : List Slice}
    (hfec : FecLeaves ratio frame trace slices)
    (hkeeps : ∀ event ∈ trace, KeepsLengths event) {shard : Slice} (hmem : shard ∈ slices) :
    shard.length = shardSize := by
  cases hfec with
  | skipped => exact length_of_mem_sessionShards hmem
  | encoded out =>
      have hlengths := hkeeps _ List.mem_cons_self out rfl
      have hshard : shard.length ∈ out.val.map List.length := List.mem_map_of_mem hmem
      rw [hlengths] at hshard
      obtain ⟨plain, hplain, heq⟩ := List.mem_map.mp hshard
      rw [← heq]
      exact length_of_mem_sessionShards hplain

/-! ## Every run of `send` takes one of the exits -/

theorem length_sessionPackets (ratio : ParityRatio) (rendezvousSecs : RendezvousSecs)
    (sessionId : SessionId) (frame : List UInt8) (encrypted : List Sealed) :
    (sessionPackets ratio rendezvousSecs sessionId frame encrypted).length =
      encrypted.length :=
  length_packetsFrom _ _ _

theorem Prepared.length_packets_le {ratio : ParityRatio} {frame : ByteVec target}
    {fec : Trace Call (Reply target)} {slices : List Slice} {encrypted : List Sealed}
    (hprepared : Prepared ratio frame fec slices encrypted)
    (rendezvousSecs : RendezvousSecs) (sessionId : SessionId) :
    (sessionPackets ratio rendezvousSecs sessionId frame.val encrypted).length ≤
      target.isizeMax := by
  have hfits := hprepared.accepted.fits
  have hisize := target.isizeMax_eq
  rw [length_sessionPackets, hprepared.length_eq, hprepared.fecLeaves.length_eq]
  omega

section Runs

variable {self : FiudpSender} {ratio : ParityRatio} {rendezvousSecs : RendezvousSecs}
  {sessionId : SessionId} {frame : ByteVec target}

/-- The filters and the transmission loop, once all packets are prepared. -/
theorem transmission_exit {fec rest : Trace Call (Reply target)} {slices : List Slice}
    {encrypted : List Sealed} {result : Result Unit}
    (hprepared : Prepared ratio frame fec slices encrypted)
    (hreturns : Returns (do
      let ready ← self.chaos
        (sessionPackets ratio rendezvousSecs sessionId frame.val encrypted)
      transmit self.delay ready.length 0 ready : Pipeline target Unit).run rest result) :
    Exit self ratio rendezvousSecs sessionId
      (preparation ratio rendezvousSecs sessionId frame fec slices encrypted ++ rest)
      result := by
  have hlength := hprepared.length_packets_le rendezvousSecs sessionId
  rcases (returns_try_iff _ _ _ _).mp hreturns with ⟨failure, -, hchaos⟩ |
    ⟨draws, sends, final, rfl, hchaos, hsends⟩
  · obtain ⟨drawn, kept, permuted, final, hok, hfinal⟩ := returns_chaos _ _ hlength hchaos
    cases hok
  · rcases returns_transmit _ _ _ _ hsends with ⟨rfl, rfl⟩ |
      ⟨sent, packet, error, hpacket, rfl, rfl⟩
    · exact .completed frame hprepared hchaos
    · exact .sendFailed frame sent packet error hprepared hchaos hpacket

/-- The encryption loop and what follows it, once FEC has left its slices. -/
theorem encryption_exit {fec rest : Trace Call (Reply target)} {slices : List Slice}
    {result : Result Unit} (haccepted : Accepted ratio frame.val)
    (hfec : FecLeaves ratio frame.val fec slices)
    (hkeeps : ∀ event ∈ fec ++ rest, KeepsLengths event)
    (hreturns : Returns (do
      let ready ← preparePackets
        (frameBuilder ratio rendezvousSecs sessionId frame.val) sessionId 0 slices
      let ready ← self.chaos ready
      transmit self.delay ready.length 0 ready : Pipeline target Unit).run rest result) :
    Exit self ratio rendezvousSecs sessionId
      (⟨.readAll, .ok frame⟩ :: (fec ++ rest)) result := by
  rw [List.forall_mem_append] at hkeeps
  have hsizes : ∀ shard ∈ slices, shard.length = shardSize :=
    fun shard hmem => hfec.length_of_mem hkeeps.1 hmem
  rcases (returns_try_iff _ _ _ _).mp hreturns with ⟨failure, rfl, hprepare⟩ |
    ⟨first, second, ready, rfl, hprepare, hrest⟩
  · obtain ⟨encrypted, hbuffers, ⟨-, -, hok⟩ | ⟨shard, error, hshard, rfl, herror⟩⟩ :=
      returns_preparePackets _ _ _ _ hsizes hkeeps.2 hprepare
    · cases hok
    · cases herror
      rw [Nat.zero_add, ← List.append_assoc, ← List.cons_append]
      exact .encryptFailed frame encrypted shard error
        ⟨haccepted, hfec, hsizes, hbuffers⟩ hshard
  · have hfirst := (List.forall_mem_append.mp hkeeps.2).1
    obtain ⟨encrypted, hbuffers, ⟨hlength, rfl, hok⟩ |
        ⟨shard, error, hshard, rfl, herror⟩⟩ :=
      returns_preparePackets _ _ _ _ hsizes hfirst hprepare
    · cases hok
      rw [← List.append_assoc, ← List.cons_append]
      exact transmission_exit ⟨⟨haccepted, hfec, hsizes, hbuffers⟩, hlength⟩ hrest
    · cases herror

/-- The part of `send` after the guards, on an accepted frame. -/
theorem sendShards_exit (haccepted : Accepted ratio frame.val)
    {trace : Trace Call (Reply target)} {result : Result Unit}
    (hkeeps : ∀ event ∈ trace, KeepsLengths event)
    (hreturns : Returns (self.sendShards rendezvousSecs sessionId (paddedFrame frame.val)
      (dataCount frame.val) (parityCount ratio frame.val)).run trace result) :
    Exit self ratio rendezvousSecs sessionId (⟨.readAll, .ok frame⟩ :: trace) result := by
  rw [FiudpSender.sendShards, returns_try_iff] at hreturns
  rcases hreturns with ⟨failure, rfl, hfec⟩ | ⟨fec, rest, slices, rfl, hfec, hrest⟩
  · rcases returns_fecStage _ _ _ hfec with ⟨-, -, hok⟩ | ⟨hparity, reply, rfl, hreply⟩
    · cases hok
    · cases reply with
      | ok out => cases hreply
      | error error =>
          cases hreply
          exact .fecFailed frame error haccepted hparity
  · rcases returns_fecStage _ _ _ hfec with ⟨hparity, rfl, hok⟩ | ⟨hparity, reply, rfl, hreply⟩
    · cases hok
      exact encryption_exit haccepted (.skipped hparity) hkeeps hrest
    · cases reply with
      | error error => cases hreply
      | ok out =>
          cases hreply
          exact encryption_exit haccepted (.encoded out hparity) hkeeps hrest

/-- The checks of `send`, up to the point where it has shards to work on. -/
theorem send_run : (self.send ratio rendezvousSecs sessionId : Pipeline target Unit).run =
    .ask .readAll fun
      | .error error => .done (.error (.error error))
      | .ok frame =>
          if frame.val = [] then .done (.error (.error .emptyInput))
          else if 65535 < dataCount frame.val + parityCount ratio frame.val then
            .done (.error (.error
              (.tooManyShards (dataCount frame.val + parityCount ratio frame.val))))
          else (self.sendShards rendezvousSecs sessionId (paddedFrame frame.val)
            (dataCount frame.val) (parityCount ratio frame.val)).run := by
  change Program.ask _ _ = Program.ask _ _
  congr 1
  funext reply
  cases reply with
  | error error => rfl
  | ok frame =>
      change ExceptT.run (if frame.val.isEmpty then _ else _) = ite _ _ _
      by_cases hframe : frame.val = []
      · rw [if_pos hframe, if_pos (List.isEmpty_iff.mpr hframe)]
        rfl
      have hdata := dataCount_pos hframe
      have hparity : ratio.parityShards target (dataCount frame.val) =
          parityCount ratio frame.val := ratio.parityShards_eq target frame.property
      have hfits : dataCount frame.val + parityCount ratio frame.val ≤ target.usizeMax :=
        length_shards_le_usizeMax ratio frame
      rw [if_neg hframe, if_neg fun hempty => hframe (List.isEmpty_iff.mp hempty),
        padToShardSize_eq target frame.property, Fallible.ofExcept_ok_bind]
      simp only [length_paddedFrame_div, hdata.ne', if_false]
      rw [hparity, Target.add_eq_ok hfits, Fallible.ofExcept_ok_bind]
      split <;> rfl

/-- The ways through the checks of `send`. -/
theorem returns_send {trace : Trace Call (Reply target)} {result : Result Unit}
    (hreturns :
      Returns (self.send ratio rendezvousSecs sessionId).run trace result) :
    (∃ error, trace = [⟨.readAll, .error error⟩] ∧ result = .error (.error error)) ∨
      ∃ (frame : ByteVec target) (rest : Trace Call (Reply target)),
        trace = ⟨.readAll, .ok frame⟩ :: rest ∧
        ((frame.val = [] ∧ rest = [] ∧ result = .error (.error .emptyInput)) ∨
          (frame.val ≠ [] ∧ 65535 < dataCount frame.val + parityCount ratio frame.val ∧
            rest = [] ∧ result = .error (.error
              (.tooManyShards (dataCount frame.val + parityCount ratio frame.val)))) ∨
          (Accepted ratio frame.val ∧
            Returns (self.sendShards rendezvousSecs sessionId (paddedFrame frame.val)
              (dataCount frame.val) (parityCount ratio frame.val)).run rest result)) := by
  rw [send_run] at hreturns
  obtain ⟨reply, rest, rfl, hrest⟩ := (returns_ask_iff _ _ _ _).mp hreturns
  cases reply with
  | error error =>
      obtain ⟨rfl, rfl⟩ := (returns_done_iff _ _ _).mp hrest
      exact .inl ⟨error, rfl, rfl⟩
  | ok frame =>
      refine .inr ⟨frame, rest, rfl, ?_⟩
      change Returns (ite _ _ _) rest result at hrest
      by_cases hframe : frame.val = []
      · rw [if_pos hframe] at hrest
        obtain ⟨rfl, rfl⟩ := (returns_done_iff _ _ _).mp hrest
        exact .inl ⟨hframe, rfl, rfl⟩
      rw [if_neg hframe] at hrest
      by_cases hshards : 65535 < dataCount frame.val + parityCount ratio frame.val
      · rw [if_pos hshards] at hrest
        obtain ⟨rfl, rfl⟩ := (returns_done_iff _ _ _).mp hrest
        exact .inr (.inl ⟨hframe, hshards, rfl, rfl⟩)
      · rw [if_neg hshards] at hrest
        exact .inr (.inr ⟨⟨hframe, Nat.not_lt.mp hshards⟩, hrest⟩)

/-- The calls and the result of a run of `send` whose components keep slice
lengths are those of one of the exits. -/
theorem send_exit {trace : Trace Call (Reply target)} {result : Result Unit}
    (hkeeps : ∀ event ∈ trace, KeepsLengths event)
    (hreturns :
      Returns (self.send ratio rendezvousSecs sessionId).run trace result) :
    Exit self ratio rendezvousSecs sessionId trace result := by
  rcases returns_send hreturns with ⟨error, rfl, rfl⟩ | ⟨frame, rest, rfl, hcases⟩
  · exact .readFailed error
  · rcases hcases with ⟨hempty, rfl, rfl⟩ | ⟨hframe, hshards, rfl, rfl⟩ | ⟨haccepted, hrest⟩
    · exact .emptyInput frame hempty
    · exact .tooManyShards frame hframe hshards
    · exact sendShards_exit haccepted (List.forall_mem_cons.mp hkeeps).2 hrest

/-- A session that succeeds has been prepared and completely sent. -/
theorem send_completed {trace : Trace Call (Reply target)}
    (hkeeps : ∀ event ∈ trace, KeepsLengths event)
    (hreturns : Returns (self.send ratio rendezvousSecs sessionId).run trace (.ok ())) :
    ∃ (frame : ByteVec target) (fec draws : Trace Call (Reply target)) (slices : List Slice)
      (encrypted : List Sealed) (final : List Packet),
      Prepared ratio frame fec slices encrypted ∧
      Returns (self.chaos
        (sessionPackets ratio rendezvousSecs sessionId frame.val encrypted)).run draws
        (.ok final) ∧
      trace = preparation ratio rendezvousSecs sessionId frame fec slices encrypted ++
        (draws ++ sendEvents self.delay final.length 0 final) := by
  cases send_exit hkeeps hreturns with
  | completed frame hprepared hchaos => exact ⟨frame, _, _, _, _, _, hprepared, hchaos, rfl⟩

end Runs

end Fiudp.Sender
