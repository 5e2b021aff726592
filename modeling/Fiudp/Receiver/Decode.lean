import Fiudp.Core.ErasureCode
import Fiudp.Sender.Fec
import Fiudp.Sender.Stream

/-!
# The receiver of the specification

The decoder the protocol specification describes, and what it makes of any
sufficient part of a session's packets.
-/

namespace Fiudp.Receiver

open ByteLayout Protocol Interaction Sender

variable {target : Target}

/-- An AEAD in the direction of the receiver: nonce, AAD, tag and ciphertext. -/
abbrev OpenAead := List UInt8 → List UInt8 → List UInt8 → List UInt8 → Option Slice

/-- The codewords of the erasure code, for each number of data and parity shards. -/
abbrev FecCode := ℕ → ℕ → Set (List Slice)

/-- Authenticate and decrypt one packet. -/
def openPacket (openAead : OpenAead) (packet : Packet) : Option (Header × Slice) :=
  let bytes := packet.toList
  let nonce := slice bytes 0 4 ++ List.replicate 8 0
  (openAead nonce (slice bytes 0 12) (slice bytes 12 16) (slice bytes 28 1400)).map
    fun shard => (Header.read bytes, shard)

/-- The words a session may have sent: without parity there is no code. -/
def words (code : FecCode) (dataShards parityShards : ℕ) : Set (List Slice) :=
  if parityShards = 0 then {word | word.length = dataShards} else code dataShards parityShards

def shardIndex (packet : Packet) : ℕ := (Header.read packet.toList).shardIndex.raw.toNat

/-- Open the packets, place each shard at its index, recover the missing ones and
join the data shards. -/
noncomputable def decode (openAead : OpenAead) (code : FecCode) (received : List Packet) :
    Option (List UInt8) :=
  let opened := received.filterMap (openPacket openAead)
  match opened with
  | [] => none
  | (header, _) :: _ =>
      let dataShards := header.dataShards.raw.toNat
      let parityShards := header.parityShards.raw.toNat
      let known := opened.map fun entry => (entry.1.shardIndex.raw.toNat, entry.2)
      (ErasureCode.recover (words code dataShards parityShards) known).map
        fun word => (word.take dataShards).flatten

/-! ## Assumptions on the components -/

/-- The AEAD decrypts what it encrypted under the same nonce and AAD. -/
def Opens (openAead : OpenAead) (encryption : Encryption) : Prop :=
  ∀ item, encryption.reply = .ok item →
    openAead encryption.nonce.toList encryption.aad.toList item.tag.toList item.buffer =
      some encryption.buffer

/-- The FEC engine leaves the data slices alone and makes a codeword. -/
def Encodes (code : FecCode) (encoding : Encoding) : Prop :=
  ∀ out, encoding.reply = .ok out →
    out ∈ code encoding.dataShards encoding.parityShards ∧
      out.take encoding.dataShards = encoding.shards.take encoding.dataShards

theorem determines_words {code : FecCode}
    (hcode : ∀ dataShards parityShards,
      ErasureCode.Determines dataShards (code dataShards parityShards))
    (dataShards parityShards : ℕ) :
    ErasureCode.Determines dataShards (words code dataShards parityShards) := by
  rw [words]
  split
  · exact ErasureCode.determines_setOf_length dataShards
  · exact hcode dataShards parityShards

/-! ## Decoding a session -/

/-- What a packet of the session opens to. -/
theorem openPacket_eq_some {openAead : OpenAead} {sessionId : SessionId}
    {rendezvousSecs : RendezvousSecs} {dataShards parityShards index : ℕ} {plaintext : Slice}
    {encryption : Encryption} {packet : Packet}
    (hcarries : CarriesShard sessionId rendezvousSecs dataShards parityShards index plaintext
      encryption packet)
    (hopens : Opens openAead encryption) :
    openPacket openAead packet = some (Header.read packet.toList, plaintext) := by
  obtain ⟨item, hreply, htag, hbuffer⟩ := hcarries.encrypted
  have hopened := hopens item hreply
  rw [hcarries.nonce_read, hcarries.aad_eq, ← htag, ← hbuffer, hcarries.buffer_eq] at hopened
  rw [openPacket, hopened]
  rfl

/-- Collecting: when every packet opens, the collected entries are those of the
packets. -/
theorem map_fst_opened {openAead : OpenAead} {received : List Packet}
    (hopened : ∀ packet ∈ received, ∃ shard,
      openPacket openAead packet = some (Header.read packet.toList, shard)) :
    ((received.filterMap (openPacket openAead)).map fun entry =>
      entry.1.shardIndex.raw.toNat) = received.map shardIndex := by
  rw [List.map_filterMap, ← List.filterMap_eq_map]
  apply List.filterMap_congr
  intro packet hmem
  obtain ⟨shard, hshard⟩ := hopened packet hmem
  rw [hshard]
  rfl

/-- The packet is one of the session's: it carries a slice of `word`, encrypted so
that the AEAD opens it. -/
def CarriesSlice (openAead : OpenAead) (sessionId : SessionId)
    (rendezvousSecs : RendezvousSecs) (dataShards parityShards : ℕ) (word : List Slice)
    (packet : Packet) : Prop :=
  ∃ index plaintext encryption, word[index]? = some plaintext ∧
    CarriesShard sessionId rendezvousSecs dataShards parityShards index plaintext encryption
      packet ∧
    Opens openAead encryption

theorem decode_of_carriesSlice {openAead : OpenAead} {code : FecCode}
    (hcode : ∀ dataShards parityShards,
      ErasureCode.Determines dataShards (code dataShards parityShards))
    {sessionId : SessionId} {rendezvousSecs : RendezvousSecs} {dataShards parityShards : ℕ}
    {word : List Slice} (hword : word ∈ words code dataShards parityShards)
    {received : List Packet}
    (hreceived : ∀ packet ∈ received,
      CarriesSlice openAead sessionId rendezvousSecs dataShards parityShards word packet)
    (hdata : 0 < dataShards)
    (henough : dataShards ≤ (received.map shardIndex).toFinset.card) :
    decode openAead code received = some (word.take dataShards).flatten := by
  have hopened : ∀ packet ∈ received, ∃ shard,
      openPacket openAead packet = some (Header.read packet.toList, shard) := by
    intro packet hmem
    obtain ⟨index, plaintext, encryption, -, hcarries, hopens⟩ := hreceived packet hmem
    exact ⟨plaintext, openPacket_eq_some hcarries hopens⟩
  have hindices := map_fst_opened hopened
  have hentries : ∀ entry ∈ received.filterMap (openPacket openAead),
      entry.1.dataShards.raw.toNat = dataShards ∧
      entry.1.parityShards.raw.toNat = parityShards ∧
      word[entry.1.shardIndex.raw.toNat]? = some entry.2 := by
    intro entry hentry
    obtain ⟨packet, hmem, hpacket⟩ := List.mem_filterMap.mp hentry
    obtain ⟨index, plaintext, encryption, hindex, hcarries, hopens⟩ := hreceived packet hmem
    rw [openPacket_eq_some hcarries hopens] at hpacket
    cases hpacket
    exact ⟨hcarries.dataShards_eq, hcarries.parityShards_eq,
      by rw [hcarries.shardIndex_eq, hindex]⟩
  rw [decode]
  cases hlist : received.filterMap (openPacket openAead) with
  | nil =>
      rw [hlist, List.map_nil] at hindices
      rw [← hindices] at henough
      simp at henough
      omega
  | cons entry entries =>
      rw [hlist] at hindices hentries
      obtain ⟨hfirstData, hfirstParity, -⟩ := hentries entry List.mem_cons_self
      have hagrees : ErasureCode.Agrees word ((entry :: entries).map fun entry =>
          (entry.1.shardIndex.raw.toNat, entry.2)) := by
        simp only [ErasureCode.Agrees, List.forall_mem_map]
        exact fun entry hentry => (hentries entry hentry).2.2
      have hcard : dataShards ≤ (((entry :: entries).map fun entry =>
          (entry.1.shardIndex.raw.toNat, entry.2)).map Prod.fst).toFinset.card := by
        rw [← hindices] at henough
        rwa [List.map_map]
      simp only [hfirstData, hfirstParity]
      rw [ErasureCode.recover_eq_some (determines_words hcode dataShards parityShards) hword
        hagrees hcard]
      rfl

section Session

variable {self : FiudpSender} {ratio : ParityRatio} {rendezvousSecs : RendezvousSecs}
  {sessionId : SessionId} {frame : ByteVec target} {fec draws : Trace Call (Reply target)}
  {slices : List Slice} {encrypted : List Sealed} {final : List Packet}

/-- What the engine left is a word of the session's code, and its data part is the
padded frame. -/
theorem slices_mem_words {code : FecCode}
    (hprepared : Prepared ratio frame fec slices encrypted)
    (hencodes : ∀ encoding ∈ encodingsOf ratio frame.val slices, Encodes code encoding) :
    slices ∈ words code (dataCount frame.val) (parityCount ratio frame.val) ∧
      (slices.take (dataCount frame.val)).flatten = paddedFrame frame.val := by
  have hblocks : ((sessionShards ratio frame.val).take (dataCount frame.val)).flatten =
      paddedFrame frame.val := by
    rw [sessionShards, plainShards, List.take_append_of_le_length, List.take_of_length_le,
      paddedFrame, Blocks.flatten_chunksExact_padded shardSize_pos]
    · rw [paddedFrame, Blocks.length_chunksExact_padded shardSize_pos]
      rfl
    · rw [paddedFrame, Blocks.length_chunksExact_padded shardSize_pos]
      rfl
  cases hprepared.fecLeaves with
  | skipped hparity =>
      refine ⟨?_, hblocks⟩
      rw [words, if_pos hparity]
      exact (length_sessionShards ratio frame.val).trans (by rw [hparity, Nat.add_zero])
  | encoded out hparity =>
      rw [encodingsOf, if_neg hparity.ne'] at hencodes
      obtain ⟨hcode, hdata⟩ := hencodes _ List.mem_cons_self out.val rfl
      rw [words, if_neg hparity.ne', hdata]
      exact ⟨hcode, hblocks⟩

end Session

/-- Whatever the chaos filters and the network drop, duplicate or reorder: shards
with as many distinct indices as the frame has data shards decode to the padded
frame. -/
theorem decode_received {openAead : OpenAead} {code : FecCode}
    (hcode : ∀ dataShards parityShards,
      ErasureCode.Determines dataShards (code dataShards parityShards))
    {self : FiudpSender} {ratio : ParityRatio} {rendezvousSecs : RendezvousSecs}
    {sessionId : SessionId} {frame : List UInt8} {trace : Trace Call (Reply target)}
    (hkeeps : ∀ event ∈ trace, KeepsLengths event)
    (hopens : ∀ encryption ∈ (record trace).encryptions, Opens openAead encryption)
    (hencodes : ∀ encoding ∈ (record trace).encodings, Encodes code encoding)
    (hreturns : Returns (self.send ratio rendezvousSecs sessionId).run trace (.ok ()))
    (hread : frameRead trace = some frame) {received : List Packet}
    (hreceived : ∀ packet ∈ received,
      packet ∈ (record trace).transmissions.map Transmission.packet)
    (henough : dataCount frame ≤ (received.map shardIndex).toFinset.card) :
    decode openAead code received = some (paddedFrame frame) ∧
      frame <+: paddedFrame frame := by
  obtain ⟨bytes, fec, draws, slices, encrypted, final, hprepared, hchaos, rfl⟩ :=
    send_completed hkeeps hreturns
  cases hread
  rw [record_session hprepared hchaos (record_sendEvents _ _ _ final)] at hopens hencodes hreceived
  obtain ⟨survivors, kept, hsublist, hperm, hkept, -, -⟩ :=
    returns_chaos _ _ (hprepared.length_packets_le rendezvousSecs sessionId) hchaos
  cases hkept
  obtain ⟨hword, hflatten⟩ := slices_mem_words hprepared hencodes
  have hcarried : ∀ packet ∈ received, CarriesSlice openAead sessionId rendezvousSecs
      (dataCount bytes.val) (parityCount ratio bytes.val) slices packet := by
    intro packet hmem
    have hfinal : packet ∈ final := by simpa using hreceived packet hmem
    obtain ⟨index, hindex, hpacket⟩ :=
      List.getElem_of_mem (hsublist.subset (hperm.mem_iff.mp hfinal))
    have hshard := hindex
    rw [length_sessionPackets, hprepared.length_eq, hprepared.fecLeaves.length_eq] at hshard
    obtain ⟨plaintext, encryption, carrier, hplaintext, hencryption, hcarrier, hcarries⟩ :=
      hprepared.carriesShard rendezvousSecs sessionId hshard
    rw [List.getElem?_eq_getElem hindex, hpacket] at hcarrier
    cases hcarrier
    exact ⟨index, plaintext, encryption, hplaintext, hcarries,
      hopens encryption (List.mem_of_getElem? hencryption)⟩
  have hdata := dataCount_pos hprepared.accepted.nonempty
  exact ⟨by rw [decode_of_carriesSlice hcode hword hcarried hdata henough, hflatten],
    List.prefix_append _ _⟩

/-! ## One data shard, one parity shard, and only the latter received -/

/-- The code of a single data shard: every slice is a copy of it. -/
def copyingCode : FecCode := fun dataShards parityShards =>
  if dataShards = 1 then {word | ∃ shard, word = List.replicate (1 + parityShards) shard} else ∅

theorem determines_copyingCode (dataShards parityShards : ℕ) :
    ErasureCode.Determines dataShards (copyingCode dataShards parityShards) := by
  by_cases hone : dataShards = 1
  · subst hone
    rw [copyingCode, if_pos rfl]
    rintro _ ⟨left, rfl⟩ _ ⟨right, rfl⟩ positions hcard hagree
    obtain ⟨position, hposition⟩ := Finset.card_pos.mp (Nat.lt_of_lt_of_le Nat.one_pos hcard)
    obtain ⟨item, hleft, hright⟩ := hagree position hposition
    rw [List.eq_of_mem_replicate (List.mem_of_getElem? hleft)] at hright
    rw [List.eq_of_mem_replicate (List.mem_of_getElem? hright)]
  · rw [copyingCode, if_neg hone]
    exact fun left hleft => absurd hleft (Set.notMem_empty left)

theorem encodes_copyingCode {parityShards : ℕ} {shards : List Slice}
    (hlength : shards.length = 1 + parityShards) :
    Encodes copyingCode
      ⟨1, parityShards, shards, .ok (shards.map fun _ => shards.headD [])⟩ := by
  rintro _ ⟨⟩
  rw [copyingCode, if_pos rfl, List.map_const', hlength]
  refine ⟨⟨_, rfl⟩, ?_⟩
  cases shards with
  | nil =>
      rw [List.length_nil] at hlength
      omega
  | cons first rest => simp [Nat.add_comm 1, List.replicate_succ]

/-- The sample session with this code. -/
def copyingRun : Execution Call (Reply Target.release64) (Result Unit) Unit :=
  (Components.withEngine copyingCrate sampleFrame).run sampleSender sampleRatio ⟨60⟩ ⟨1⟩

theorem answeredBy_copyingRun : ∀ event ∈ copyingRun.trace, AnsweredBy copyingCrate event :=
  Components.answeredBy_withEngine _ _ _ _ _ _

theorem keepsLengths_copyingRun : ∀ event ∈ copyingRun.trace, KeepsLengths event :=
  fun event hmem => (answeredBy_copyingRun event hmem).keepsLengths documented_copyingCrate

theorem returns_copyingRun :
    Returns (sampleSender.send sampleRatio ⟨60⟩ ⟨1⟩).run copyingRun.trace (.ok ()) := by
  rw [← value_withEngine_sample]
  exact Components.returns_run _ _ _ _ _

theorem opens_copyingRun :
    ∀ encryption ∈ (record copyingRun.trace).encryptions,
      Opens (fun _ _ _ ciphertext => some ciphertext) encryption := by
  intro encryption hmem item hitem
  have hreply := Components.reply_of_mem_run _ _ _ _ _ (mem_encryptions_record hmem)
  cases hitem.symm.trans hreply
  rfl

/-- What the copying engine leaves, and the packets sent after it. -/
theorem record_copyingRun :
    (∀ encoding ∈ (record copyingRun.trace).encodings, Encodes copyingCode encoding) ∧
      (record copyingRun.trace).transmissions.length = 2 := by
  obtain ⟨frame, fec, draws, slices, encrypted, final, hprepared, hchaos, htrace⟩ :=
    send_completed keepsLengths_copyingRun returns_copyingRun
  have hanswered := answeredBy_copyingRun
  have hframe : frame = sampleFrame := by
    have hread : frameRead copyingRun.trace = some sampleFrame.val := rfl
    rw [htrace] at hread
    exact Subtype.ext (Option.some.inj hread)
  subst hframe
  have hcount : slices.length = 2 := hprepared.fecLeaves.length_eq
  rw [htrace] at hanswered ⊢
  rw [record_session hprepared hchaos (record_sendEvents _ _ _ final)]
  constructor
  · cases hprepared.fecLeaves with
    | skipped hparity => exact absurd hparity (by decide)
    | encoded out hparity =>
        have hencode := hanswered (encodeEvent sampleRatio sampleFrame.val (.ok out))
          (by simp [preparation, encodeEvent])
        have hout := encode_copyingCrate (Eq.symm hencode)
        have hlength := length_sessionShards sampleRatio sampleFrame.val
        intro encoding hmem
        rw [encodingsOf, if_neg hparity.ne', List.mem_singleton] at hmem
        subst hmem
        rw [hout]
        exact encodes_copyingCode hlength
  · obtain ⟨survivors, kept, -, -, hkept, -, hunfiltered⟩ :=
      returns_chaos _ _ (hprepared.length_packets_le ⟨60⟩ ⟨1⟩) hchaos
    cases hkept
    rw [(hunfiltered (by decide)).2, List.length_map, length_sessionPackets,
      hprepared.length_eq, hcount]

theorem decode_received_sample :
    decode (fun _ _ _ ciphertext => some ciphertext) copyingCode
        (((record copyingRun.trace).transmissions.map Transmission.packet).drop 1) =
        some (paddedFrame sampleFrame.val) ∧
      sampleFrame.val <+: paddedFrame sampleFrame.val := by
  obtain ⟨hencodes, hlength⟩ := record_copyingRun
  refine decode_received determines_copyingCode keepsLengths_copyingRun opens_copyingRun hencodes
    returns_copyingRun rfl (fun packet hmem => List.mem_of_mem_drop hmem) ?_
  generalize (record copyingRun.trace).transmissions = sent at hlength
  obtain ⟨first, second, rfl⟩ := List.length_eq_two.mp hlength
  exact Finset.card_pos.mpr ⟨_, List.mem_toFinset.mpr List.mem_cons_self⟩

end Fiudp.Receiver
