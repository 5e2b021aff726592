import Fiudp.Sender.Components
import Fiudp.Sender.Observations

/-!
# The outcome of `send`

The result of a run is decided by the first component that fails, in the order
of the pipeline, and the transport is not called before the whole session has
been encrypted.
-/

namespace Fiudp.Sender

open ByteLayout Protocol Interaction

variable {target : Target}

/-! ## Calls that stop at their first error -/

section Replies

variable {α : Type}

/-- The first error among the answers of a component. -/
def firstError : List (Except FiudpError α) → Option FiudpError
  | [] => none
  | .error error :: _ => some error
  | .ok _ :: replies => firstError replies

/-- No call follows a failed one. -/
def StopsAtError (replies : List (Except FiudpError α)) : Prop :=
  ∀ (index : ℕ) (error : FiudpError),
    replies[index]? = some (.error error) → replies.length = index + 1

@[simp]
theorem firstError_append (first second : List (Except FiudpError α)) :
    firstError (first ++ second) = (firstError first).or (firstError second) := by
  induction first with
  | nil => simp [firstError]
  | cons reply first ih =>
      cases reply with
      | error error => simp [firstError]
      | ok value => simpa [firstError] using ih

theorem firstError_eq_none_iff (replies : List (Except FiudpError α)) :
    firstError replies = none ↔ ∀ reply ∈ replies, ∃ value, reply = .ok value := by
  induction replies with
  | nil => simp [firstError]
  | cons reply replies ih =>
      cases reply with
      | error error => simp [firstError]
      | ok value => simp [firstError, ih]

theorem stopsAtError_append {first second : List (Except FiudpError α)}
    (hfirst : firstError first = none) (hsecond : second.length ≤ 1) :
    StopsAtError (first ++ second) := by
  rw [firstError_eq_none_iff] at hfirst
  intro index error herror
  rw [List.length_append]
  by_cases hindex : index < first.length
  · rw [List.getElem?_append_left hindex] at herror
    obtain ⟨value, hvalue⟩ := hfirst _ (List.mem_of_getElem? herror)
    cases hvalue
  · rw [List.getElem?_append_right (by omega)] at herror
    obtain ⟨hlt, -⟩ := List.getElem?_eq_some_iff.mp herror
    omega

theorem stopsAtError_of_ok {replies : List (Except FiudpError α)}
    (hok : firstError replies = none) : StopsAtError replies := by
  simpa using stopsAtError_append hok (List.length_nil.trans_le (Nat.zero_le 1))

end Replies

/-! ## The order of the errors -/

/-- The first error of the FEC engine, else of the encryptor, else of the
transport. -/
def Record.firstError (record : Record target) : Option FiudpError :=
  (Sender.firstError (record.encodings.map Encoding.reply)).or
    ((Sender.firstError (record.encryptions.map Encryption.reply)).or
      (Sender.firstError (record.transmissions.map Transmission.reply)))

/-- The result of a run, decided from the answers of the components: the reader's
error, an empty frame, too many shards, then the first error of the pipeline. -/
def verdict (ratio : ParityRatio) (trace : Trace Call (Reply target)) : Result Unit :=
  match trace with
  | ⟨.readAll, .error error⟩ :: _ => .error (.error error)
  | ⟨.readAll, .ok frame⟩ :: _ =>
      if frame.val.length = 0 then .error (.error .emptyInput)
      else if 65535 < dataCount frame.val + parityCount ratio frame.val then
        .error (.error (.tooManyShards (dataCount frame.val + parityCount ratio frame.val)))
      else
        match (record trace).firstError with
        | some error => .error (.error error)
        | none => .ok ()
  | _ => .ok ()

/-- The frame is read first.  A frame that passes the checks and needs parity goes to the FEC
engine next, once and with all its shards; no other frame is given to it. -/
structure EncodesFirst (ratio : ParityRatio) (trace : Trace Call (Reply target)) : Prop where
  reads_first : ∃ reply rest, trace = ⟨.readAll, reply⟩ :: rest
  unread : frameRead trace = none → record trace = {}
  /-- A frame that fails the checks reaches no component. -/
  guarded : ∀ frame, frameRead trace = some frame → ¬ Accepted ratio frame → record trace = {}
  encodes_once : ∀ frame, frameRead trace = some frame → Accepted ratio frame →
    0 < parityCount ratio frame → ∃ (bytes : ByteVec target) (reply : _)
      (rest : Trace Call (Reply target)),
        trace = ⟨.readAll, .ok bytes⟩ :: encodeEvent ratio frame reply :: rest ∧
          (record rest).encodings = []
  unencoded : ∀ frame, frameRead trace = some frame → parityCount ratio frame = 0 →
    (record trace).encodings = []

/-- The packets assembled from the encryptions of a run. -/
def Record.packets (record : Record target) (builder : PacketBuilder) : List Packet :=
  packetsFrom builder 0 (record.encryptions.filterMap fun encryption => encryption.reply.toOption)

section Outcome

variable (self : FiudpSender) (ratio : ParityRatio) (rendezvousSecs : RendezvousSecs)
  (sessionId : SessionId)

/-- The transport was given the packets of a completely encrypted session, as the
chaos filters left them, from the first one on. -/
structure Transmits (trace : Trace Call (Reply target)) (frame : List UInt8)
    (final : List Packet) : Prop where
  frameRead_eq : frameRead trace = some frame
  encrypted : firstError ((record trace).encryptions.map Encryption.reply) = none
  complete : (record trace).encryptions.length = dataCount frame + parityCount ratio frame
  filtered : Returns (self.chaos ((record trace).packets
    (frameBuilder ratio rendezvousSecs sessionId frame))).run (record trace).draws (.ok final)
  leading : (record trace).transmissions.map Transmission.packet <+: final

/-- The length checks on both sides of an encryption pass. -/
structure FullShard (encryption : Encryption) : Prop where
  buffer_length : encryption.buffer.length = shardSize
  written : ∀ (out : Packet) (encrypted : Sealed), encryption.reply = .ok encrypted →
    (PacketBuilder.writePacket out encryption.aad encrypted.tag encrypted.buffer).1 = .ok ()

/-- What `send` promises about its errors. -/
structure Outcome (trace : Trace Call (Reply target)) (result : Result Unit) : Prop where
  result_eq : result = verdict ratio trace
  encodes_first : EncodesFirst ratio trace
  encodes_parity : ∀ encoding ∈ (record trace).encodings, 0 < encoding.parityShards
  /-- After an error of the FEC engine nothing is encrypted. -/
  encoding_stops : ∀ error, firstError ((record trace).encodings.map Encoding.reply) = some error →
    (record trace).encryptions = [] ∧ (record trace).transmissions = []
  /-- The shards are encrypted in index order, up to the first failure. -/
  encrypts_in_order : ∀ (index : ℕ) (encryption : Encryption),
    (record trace).encryptions[index]? = some encryption →
      encryption.nonce = Crypto.deriveNonce sessionId ⟨UInt16.ofNat index⟩
  encryption_stops : StopsAtError ((record trace).encryptions.map Encryption.reply)
  transmission_stops : StopsAtError ((record trace).transmissions.map Transmission.reply)
  transmits : (record trace).transmissions ≠ [] → ∃ frame final,
    Transmits self ratio rendezvousSecs sessionId trace frame final
  transmits_all : result = .ok () → ∃ frame final,
    Transmits self ratio rendezvousSecs sessionId trace frame final ∧
      (record trace).transmissions.map Transmission.packet = final
  /-- An error that no transport call has answered comes before any of them. -/
  error_untransmitted : result ≠ .ok () →
    firstError ((record trace).transmissions.map Transmission.reply) = none →
      (record trace).transmissions = []
  no_panic : ∀ panic, result ≠ .error (.panic panic)
  /-- The second emptiness test looks at a number that is not zero. -/
  data_shards_ne_zero : ∀ frame payload, frameRead trace = some frame → frame ≠ [] →
    padToShardSize target frame = .ok payload → payload.length / shardSize ≠ 0
  /-- Neither the debug assertion nor `write_packet` finds a shard of another size. -/
  full_shards : ∀ encryption ∈ (record trace).encryptions, FullShard encryption

end Outcome

/-! ## The outcome of each exit -/

section Encryptions

variable (builder : PacketBuilder) (sessionId : SessionId)

theorem firstError_encryptionsFrom (index : ℕ) {shards : List Slice} {encrypted : List Sealed}
    (hlength : encrypted.length ≤ shards.length) :
    firstError ((encryptionsFrom builder sessionId index shards encrypted).map
      Encryption.reply) = none := by
  rw [map_reply_encryptionsFrom builder sessionId index hlength, firstError_eq_none_iff]
  simp

theorem fullShard_encryptionsFrom (index : ℕ) {shards : List Slice} {encrypted : List Sealed}
    (hshards : ∀ shard ∈ shards, shard.length = shardSize)
    (hbuffers : ∀ item ∈ encrypted, item.buffer.length = shardSize) :
    ∀ encryption ∈ encryptionsFrom builder sessionId index shards encrypted,
      FullShard encryption := by
  intro encryption hmem
  obtain ⟨position, hposition⟩ := List.getElem?_of_mem hmem
  obtain ⟨shard, item, hshard, hitem, rfl⟩ :=
    getElem?_encryptionsFrom builder sessionId hposition
  refine ⟨hshards shard (List.mem_of_getElem? hshard), ?_⟩
  rintro out encrypted ⟨⟩
  exact (PacketBuilder.writePacket_of_length
    (hbuffers item (List.mem_of_getElem? hitem)) _ _ _).1

/-- The calls of an encryption loop that has encrypted `encrypted`: no more, or
one more that failed. -/
inductive Attempts (slices : List Slice) (encrypted : List Sealed) : List Encryption → Prop
  | passed : encrypted.length ≤ slices.length →
      Attempts slices encrypted (encryptionsFrom builder sessionId 0 slices encrypted)
  | failed (shard : Slice) (error : FiudpError) :
      slices[encrypted.length]? = some shard →
        Attempts slices encrypted (encryptionsFrom builder sessionId 0 slices encrypted ++
          [encryptionOf builder sessionId encrypted.length shard (.error error)])

section Attempts

variable {builder sessionId} {slices : List Slice} {encrypted : List Sealed}
  {attempts : List Encryption}

theorem Attempts.in_order (hattempts : Attempts builder sessionId slices encrypted attempts)
    (index : ℕ) (encryption : Encryption) (hindex : attempts[index]? = some encryption) :
    encryption.nonce = Crypto.deriveNonce sessionId ⟨UInt16.ofNat index⟩ := by
  have hpassed {position : ℕ} (hposition :
      (encryptionsFrom builder sessionId 0 slices encrypted)[position]? = some encryption) :
      encryption.nonce = Crypto.deriveNonce sessionId ⟨UInt16.ofNat position⟩ := by
    obtain ⟨shard, item, -, -, rfl⟩ := getElem?_encryptionsFrom builder sessionId hposition
    rw [Nat.zero_add]
    rfl
  cases hattempts with
  | passed => exact hpassed hindex
  | failed shard error hshard =>
      obtain ⟨hlt, -⟩ := List.getElem?_eq_some_iff.mp hshard
      have hlength : (encryptionsFrom builder sessionId 0 slices encrypted).length =
          encrypted.length := by
        rw [length_encryptionsFrom, min_eq_right hlt.le]
      by_cases hless : index < encrypted.length
      · rw [List.getElem?_append_left (by rwa [hlength])] at hindex
        exact hpassed hindex
      · rw [List.getElem?_append_right (by omega), List.getElem?_singleton] at hindex
        split at hindex
        · cases hindex
          have heq : index = encrypted.length := by omega
          rw [heq]
          rfl
        · cases hindex

theorem Attempts.stops (hattempts : Attempts builder sessionId slices encrypted attempts) :
    StopsAtError (attempts.map Encryption.reply) := by
  cases hattempts with
  | passed hlength =>
      exact stopsAtError_of_ok (firstError_encryptionsFrom builder sessionId 0 hlength)
  | failed shard error hshard =>
      obtain ⟨hlt, -⟩ := List.getElem?_eq_some_iff.mp hshard
      rw [List.map_append]
      exact stopsAtError_append (firstError_encryptionsFrom builder sessionId 0 hlt.le)
        (by simp)

theorem Attempts.full (hattempts : Attempts builder sessionId slices encrypted attempts)
    (hslices : ∀ shard ∈ slices, shard.length = shardSize)
    (hbuffers : ∀ item ∈ encrypted, item.buffer.length = shardSize) :
    ∀ encryption ∈ attempts, FullShard encryption := by
  have hpassed := fullShard_encryptionsFrom builder sessionId 0 hslices hbuffers
  cases hattempts with
  | passed => exact hpassed
  | failed shard error hshard =>
      rw [List.forall_mem_append, List.forall_mem_singleton]
      refine ⟨hpassed, hslices shard (List.mem_of_getElem? hshard), ?_⟩
      rintro out item ⟨⟩

end Attempts

end Encryptions

theorem firstError_encodingsOf (ratio : ParityRatio) (frame : List UInt8)
    (slices : List Slice) :
    firstError ((encodingsOf ratio frame slices).map Encoding.reply) = none := by
  rw [encodingsOf]
  split <;> rfl

theorem encodingsOf_parity {ratio : ParityRatio} {frame : List UInt8} {slices : List Slice}
    {encoding : Encoding} (hmem : encoding ∈ encodingsOf ratio frame slices) :
    0 < encoding.parityShards := by
  rw [encodingsOf] at hmem
  split at hmem
  · simp at hmem
  · rename_i hparity
    rw [List.mem_singleton.mp hmem]
    exact Nat.pos_of_ne_zero hparity

/-- On an accepted frame the verdict is the first error of the pipeline. -/
theorem verdict_of_accepted {ratio : ParityRatio} {frame : ByteVec target}
    (haccepted : Accepted ratio frame.val) (rest : Trace Call (Reply target)) :
    verdict ratio (⟨.readAll, .ok frame⟩ :: rest) =
      match (record rest).firstError with
      | some error => .error (.error error)
      | none => .ok () := by
  have hlength : frame.val.length ≠ 0 := by simpa using haccepted.nonempty
  simp only [verdict, if_neg hlength, if_neg haccepted.fits.not_gt]
  rfl

/-- The padded frame the code divides is never shorter than a shard. -/
theorem padded_div_ne_zero {trace : Trace Call (Reply target)} {frame payload : List UInt8}
    (hread : frameRead trace = some frame) (hframe : frame ≠ [])
    (hpadded : padToShardSize target frame = .ok payload) :
    payload.length / shardSize ≠ 0 := by
  have hlength : frame.length ≤ target.isizeMax := by
    unfold frameRead at hread
    split at hread
    · rename_i bytes _
      cases hread
      exact bytes.property
    · cases hread
  rw [padToShardSize_eq target hlength] at hpadded
  cases hpadded
  rw [length_paddedFrame_div]
  exact (dataCount_pos hframe).ne'

section Cases

variable {self : FiudpSender} {ratio : ParityRatio} {rendezvousSecs : RendezvousSecs}
  {sessionId : SessionId} {frame : ByteVec target} {trace : Trace Call (Reply target)}

/-- A run in which only the reader is called. -/
theorem encodesFirst_of_idle (hreads : ∃ reply rest, trace = ⟨.readAll, reply⟩ :: rest)
    (hidle : record trace = {})
    (hrejected : ∀ frame, frameRead trace = some frame → ¬ Accepted ratio frame) :
    EncodesFirst ratio trace where
  reads_first := hreads
  unread _ := hidle
  guarded _ _ _ := hidle
  encodes_once frame hread haccepted := absurd haccepted (hrejected frame hread)
  unencoded _ _ _ := by rw [hidle]

/-- A run whose second call is that of the FEC engine. -/
theorem encodesFirst_of_encode {tail : Trace Call (Reply target)}
    {reply : Except FiudpError {out : List Slice //
      out.length = (sessionShards ratio frame.val).length}}
    (haccepted : Accepted ratio frame.val) (hparity : 0 < parityCount ratio frame.val)
    (htail : (record tail).encodings = []) :
    EncodesFirst ratio (⟨.readAll, .ok frame⟩ :: encodeEvent ratio frame.val reply :: tail) where
  reads_first := ⟨_, _, rfl⟩
  unread hread := by cases hread
  guarded := by
    rintro _ ⟨⟩ hrejected
    exact absurd haccepted hrejected
  encodes_once := by
    rintro _ ⟨⟩ - -
    exact ⟨frame, reply, tail, rfl, htail⟩
  unencoded := by
    rintro _ ⟨⟩ hnone
    exact absurd hnone hparity.ne'

/-- A run that goes on from the FEC stage. -/
theorem FecLeaves.encodesFirst {fec tail : Trace Call (Reply target)} {slices : List Slice}
    (hfec : FecLeaves ratio frame.val fec slices) (haccepted : Accepted ratio frame.val)
    (htail : (record tail).encodings = []) :
    EncodesFirst ratio (⟨.readAll, .ok frame⟩ :: (fec ++ tail)) := by
  cases hfec with
  | encoded out hparity => exact encodesFirst_of_encode haccepted hparity htail
  | skipped hnone =>
      constructor
      case reads_first => exact ⟨_, _, rfl⟩
      case unread => rintro ⟨⟩
      case guarded =>
        rintro _ ⟨⟩ hrejected
        exact absurd haccepted hrejected
      case encodes_once =>
        rintro _ ⟨⟩ - hparity
        exact absurd hnone hparity.ne'
      case unencoded =>
        intro _ _ _
        exact htail

/-- A run that ends before the encryption loop. -/
theorem outcome_of_unencrypted {error : FiudpError}
    (hverdict : verdict ratio trace = .error (.error error))
    (hencodes : EncodesFirst ratio trace)
    (hparity : ∀ encoding ∈ (record trace).encodings, 0 < encoding.parityShards)
    (hencryptions : (record trace).encryptions = [])
    (htransmissions : (record trace).transmissions = []) :
    Outcome self ratio rendezvousSecs sessionId trace (.error (.error error)) where
  result_eq := hverdict.symm
  encodes_first := hencodes
  encodes_parity := hparity
  encoding_stops _ _ := ⟨hencryptions, htransmissions⟩
  encrypts_in_order := by simp [hencryptions]
  encryption_stops := stopsAtError_of_ok (by rw [hencryptions]; rfl)
  transmission_stops := stopsAtError_of_ok (by rw [htransmissions]; rfl)
  transmits hsent := absurd htransmissions hsent
  transmits_all hok := nomatch hok
  error_untransmitted _ _ := htransmissions
  no_panic panic hpanic := nomatch hpanic
  data_shards_ne_zero _ _ := padded_div_ne_zero
  full_shards := by simp [hencryptions]

/-- A run that ends right after its read. -/
theorem outcome_of_idle {error : FiudpError}
    (hverdict : verdict ratio trace = .error (.error error))
    (hreads : ∃ reply rest, trace = ⟨.readAll, reply⟩ :: rest) (hidle : record trace = {})
    (hrejected : ∀ frame, frameRead trace = some frame → ¬ Accepted ratio frame) :
    Outcome self ratio rendezvousSecs sessionId trace (.error (.error error)) :=
  outcome_of_unencrypted hverdict (encodesFirst_of_idle hreads hidle hrejected)
    (by simp [hidle]) (by rw [hidle]) (by rw [hidle])

/-- A run that enters the encryption loop, with what it does after the
encryptions that succeed. -/
theorem outcome_of_encrypting {fec tail : Trace Call (Reply target)} {slices : List Slice}
    {encrypted : List Sealed} {result : Result Unit}
    (hencrypting : Encrypting ratio frame fec slices encrypted)
    (hlength : encrypted.length ≤ slices.length)
    (htrace : trace = preparation ratio rendezvousSecs sessionId frame fec slices encrypted ++ tail)
    (hencodings : (record tail).encodings = [])
    (hattempts : Attempts (frameBuilder ratio rendezvousSecs sessionId frame.val) sessionId
      slices encrypted (record trace).encryptions)
    (hstops : StopsAtError ((record tail).transmissions.map Transmission.reply))
    (hresult : result =
      match (record tail).firstError with
      | some error => .error (.error error)
      | none => .ok ())
    (herror : result ≠ .ok () →
      firstError ((record tail).transmissions.map Transmission.reply) = none →
        (record tail).transmissions = [])
    (hsent : (record tail).transmissions ≠ [] ∨ result = .ok () → ∃ final,
      Transmits self ratio rendezvousSecs sessionId trace frame.val final ∧
        (result = .ok () → (record tail).transmissions.map Transmission.packet = final)) :
    Outcome self ratio rendezvousSecs sessionId trace result := by
  have hrecord : record trace =
      { encodings := encodingsOf ratio frame.val slices
        encryptions := (record trace).encryptions
        transmissions := (record tail).transmissions
        draws := (record tail).draws } := by
    rw [htrace, record_append, record_preparation _ _ _ hencrypting.fecLeaves]
    ext1 <;> simp [hencodings]
  have hfirst : (record trace).firstError = (record tail).firstError := by
    rw [htrace, record_append, record_preparation _ _ _ hencrypting.fecLeaves]
    simp [Record.firstError, hencodings, firstError_encodingsOf, firstError,
      firstError_encryptionsFrom _ _ _ hlength]
  constructor
  case result_eq =>
    rw [hresult, ← hfirst, htrace]
    exact (verdict_of_accepted hencrypting.accepted _).symm
  case encodes_first =>
    rw [htrace, preparation, List.cons_append, List.append_assoc]
    apply hencrypting.fecLeaves.encodesFirst hencrypting.accepted
    rw [record_append, record_encryptEvents]
    exact hencodings
  case encodes_parity =>
    rw [hrecord]
    exact fun encoding hmem => encodingsOf_parity hmem
  case encoding_stops =>
    rw [hrecord]
    intro error hfailed
    cases (firstError_encodingsOf ratio frame.val slices).symm.trans hfailed
  case encrypts_in_order => exact hattempts.in_order
  case encryption_stops => exact hattempts.stops
  case transmission_stops =>
    rw [hrecord]
    exact hstops
  case transmits =>
    rw [hrecord]
    intro hne
    obtain ⟨final, htransmits, -⟩ := hsent (.inl hne)
    exact ⟨frame.val, final, htransmits⟩
  case transmits_all =>
    intro hok
    obtain ⟨final, htransmits, hall⟩ := hsent (.inr hok)
    refine ⟨frame.val, final, htransmits, ?_⟩
    rw [hrecord]
    exact hall hok
  case error_untransmitted =>
    rw [hrecord]
    exact herror
  case no_panic =>
    rintro panic rfl
    split at hresult <;> cases hresult
  case data_shards_ne_zero => exact fun _ _ => padded_div_ne_zero
  case full_shards => exact hattempts.full hencrypting.slice_length hencrypting.buffer_length

theorem firstError_sent (packets : List Packet) :
    firstError ((packets.map fun packet =>
      (⟨packet, .ok ()⟩ : Transmission)).map Transmission.reply) = none := by
  rw [firstError_eq_none_iff]
  simp

/-- A run whose session is prepared: what remains are draws and transmissions. -/
theorem outcome_of_prepared {fec draws sends : Trace Call (Reply target)}
    {slices : List Slice} {encrypted : List Sealed} {final : List Packet}
    {sent : List Transmission} {result : Result Unit}
    (hprepared : Prepared ratio frame fec slices encrypted)
    (hchaos : Returns (self.chaos
      (sessionPackets ratio rendezvousSecs sessionId frame.val encrypted)).run draws
      (.ok final))
    (hsends : record sends = { transmissions := sent })
    (hstops : StopsAtError (sent.map Transmission.reply))
    (hresult : result =
      match firstError (sent.map Transmission.reply) with
      | some error => .error (.error error)
      | none => .ok ())
    (hleading : sent.map Transmission.packet <+: final)
    (hall : result = .ok () → sent.map Transmission.packet = final) :
    Outcome self ratio rendezvousSecs sessionId
      (preparation ratio rendezvousSecs sessionId frame fec slices encrypted ++
        (draws ++ sends)) result := by
  have hlength := hprepared.length_eq
  have htail := record_draws_append hprepared hchaos hsends
  have hrecord := record_session hprepared hchaos hsends
  have hreplies := map_reply_encryptionsFrom
    (frameBuilder ratio rendezvousSecs sessionId frame.val) sessionId 0 hlength.le
  have herror : result ≠ .ok () → firstError (sent.map Transmission.reply) = none → sent = [] := by
    intro hfailed hnone
    rw [hnone] at hresult
    exact absurd hresult hfailed
  refine outcome_of_encrypting hprepared.toEncrypting hlength.le rfl (by rw [htail])
    (by rw [hrecord]; exact .passed hlength.le) (by rwa [htail])
    (by simpa [htail, Record.firstError, firstError] using hresult) (by rwa [htail]) fun _ =>
      ⟨final, ⟨rfl, ?_, ?_, ?_, ?_⟩, by rwa [htail]⟩
  · rw [hrecord]
    exact firstError_encryptionsFrom _ _ _ hlength.le
  · rw [hrecord, length_encryptionsFrom, hlength, min_self]
    exact hprepared.fecLeaves.length_eq
  · have hpackets : Record.packets
        { encodings := encodingsOf ratio frame.val slices
          encryptions := encryptionsFrom (frameBuilder ratio rendezvousSecs sessionId frame.val)
            sessionId 0 slices encrypted
          transmissions := sent
          draws := draws : Record target }
        (frameBuilder ratio rendezvousSecs sessionId frame.val) =
        sessionPackets ratio rendezvousSecs sessionId frame.val encrypted := by
      have hmap := congrArg (List.filterMap Except.toOption) hreplies
      rw [List.filterMap_map, List.filterMap_map] at hmap
      rw [Record.packets, sessionPackets]
      congr 1
      simpa [Function.comp_def, Except.toOption] using hmap
    rw [hrecord, hpackets]
    exact hchaos
  · rwa [hrecord]

end Cases

/-- The errors of `send` are exact, and nothing is transmitted before the whole
session has been encrypted. -/
theorem send_outcome {self : FiudpSender} {ratio : ParityRatio}
    {rendezvousSecs : RendezvousSecs} {sessionId : SessionId}
    {trace : Trace Call (Reply target)} {result : Result Unit}
    (hkeeps : ∀ event ∈ trace, KeepsLengths event)
    (hreturns : Returns (self.send ratio rendezvousSecs sessionId).run trace result) :
    Outcome self ratio rendezvousSecs sessionId trace result := by
  cases send_exit hkeeps hreturns with
  | readFailed error =>
      exact outcome_of_idle rfl ⟨_, _, rfl⟩ rfl (by rintro _ ⟨⟩)
  | emptyInput frame hempty =>
      refine outcome_of_idle (by simp [verdict, hempty]) ⟨_, _, rfl⟩ rfl ?_
      rintro _ ⟨⟩ haccepted
      exact haccepted.nonempty hempty
  | tooManyShards frame hframe hshards =>
      refine outcome_of_idle (by simp [verdict, hframe, hshards]) ⟨_, _, rfl⟩ rfl ?_
      rintro _ ⟨⟩ haccepted
      exact haccepted.fits.not_gt hshards
  | fecFailed frame error haccepted hparity =>
      refine outcome_of_unencrypted ?_ (encodesFirst_of_encode haccepted hparity rfl) ?_ rfl rfl
      · rw [verdict_of_accepted haccepted]
        rfl
      · simpa [recordEvent] using hparity
  | encryptFailed frame encrypted shard error hencrypting hshard =>
      obtain ⟨hposition, -⟩ := List.getElem?_eq_some_iff.mp hshard
      refine outcome_of_encrypting hencrypting hposition.le rfl rfl ?_
        (stopsAtError_of_ok rfl) rfl (fun _ _ => rfl) (by simp [recordEvent, encryptEvent])
      rw [record_append, record_preparation _ _ _ hencrypting.fecLeaves]
      exact .failed shard error hshard
  | @sendFailed frame fec draws slices encrypted final sent packet error hprepared hchaos
      hpacket =>
      obtain ⟨hlt, hget⟩ := List.getElem?_eq_some_iff.mp hpacket
      have hsends : record (sendEvents self.delay final.length 0 (final.take sent) ++
          [⟨.sendPacket packet, .error error⟩] : Trace Call (Reply target)) =
          { transmissions := (final.take sent).map (⟨·, .ok ()⟩) ++ [⟨packet, .error error⟩] } := by
        rw [record_append, record_sendEvents]
        rfl
      have hok := firstError_sent (final.take sent)
      refine outcome_of_prepared hprepared hchaos hsends ?_ ?_ ?_ fun hok => by cases hok
      · rw [List.map_append]
        exact stopsAtError_append hok (by simp)
      · rw [List.map_append, firstError_append, hok]
        rfl
      · have htake := List.take_prefix (sent + 1) final
        rw [List.take_succ_eq_append_getElem hlt, hget] at htake
        simpa [Function.comp_def] using htake
  | @completed frame fec draws slices encrypted final hprepared hchaos =>
      have hok := firstError_sent final
      refine outcome_of_prepared hprepared hchaos (record_sendEvents _ _ _ _)
        (stopsAtError_of_ok hok) (by rw [hok]) ?_ fun _ => ?_
      · simp [Function.comp_def]
      · simp [Function.comp_def]

theorem send_outcome_sample :
    Outcome sampleSender sampleRatio ⟨60⟩ ⟨1⟩ (sampleRun id).trace (.ok ()) :=
  send_outcome (keepsLengths_sampleRun fun _ => rfl) (returns_sampleRun fun _ => rfl)

end Fiudp.Sender
