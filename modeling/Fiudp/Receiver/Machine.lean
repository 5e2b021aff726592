import Fiudp.Core.Collector
import Fiudp.Receiver.Decode

/-!
# The receiver as a machine

A receiver that follows the protocol specification: it discards what does not
authenticate, ignores sessions up to the highest one it has accepted, groups the shards of
the others, and recovers a frame as soon as it has enough shards of one session.
-/

namespace Fiudp.Receiver

open ByteLayout Protocol Interaction Sender

variable {target : Target}

/-- The FEC layout a header declares. -/
structure Layout where
  dataShards : ℕ
  parityShards : ℕ
  deriving DecidableEq

/-- A shard that has been authenticated: its session is the round it belongs to. -/
abbrev Shard := Collector.Entry ℕ Layout ℕ Slice

/-- The shard in a packet, unless the packet does not authenticate. -/
def shardOf (openAead : OpenAead) (packet : Packet) : Option Shard :=
  (openPacket openAead packet).map fun opened =>
    { round := opened.1.sessionId.raw.toNat
      layout := ⟨opened.1.dataShards.raw.toNat, opened.1.parityShards.raw.toNat⟩
      index := opened.1.shardIndex.raw.toNat
      item := opened.2 }

/-- As many shards as there are data shards are enough to attempt the recovery. -/
noncomputable def recovery (code : FecCode) : Collector.Policy Layout ℕ Slice (List UInt8) where
  needed layout := layout.dataShards
  rebuild layout items :=
    (ErasureCode.recover (words code layout.dataShards layout.parityShards) items).map
      fun word => (word.take layout.dataShards).flatten

/-- The shards in the packets, in order of arrival. -/
def shards (openAead : OpenAead) (received : List Packet) : List Shard :=
  received.filterMap (shardOf openAead)

/-- What the receiver makes of the packets when it last accepted the session `highest`:
its state, and the frames it has displayed with their sessions. -/
noncomputable def receiveAll (openAead : OpenAead) (code : FecCode) (highest : WithBot ℕ)
    (received : List Packet) : Collector.State ℕ Layout ℕ Slice × List (ℕ × List UInt8) :=
  Collector.collect (recovery code) ⟨highest, []⟩ (shards openAead received)

noncomputable def displayed (openAead : OpenAead) (code : FecCode) (highest : WithBot ℕ)
    (received : List Packet) : List (ℕ × List UInt8) :=
  (receiveAll openAead code highest received).2

/-- The indices of the authentic shards of a session. -/
def arrived (openAead : OpenAead) (session : ℕ) (received : List Packet) : Finset ℕ :=
  Collector.seen session (shards openAead received)

/-- Several times awake: the highest accepted session is kept in between, the shards that
did not suffice are not. -/
noncomputable def displayedOver (openAead : OpenAead) (code : FecCode) :
    WithBot ℕ → List (List Packet) → List (ℕ × List UInt8)
  | _, [] => []
  | highest, window :: windows =>
      displayed openAead code highest window ++
        displayedOver openAead code (receiveAll openAead code highest window).1.highest windows

/-- Whatever arrives, sessions are displayed in increasing order, each at most once. -/
theorem displayedOver_increasing (openAead : OpenAead) (code : FecCode) (highest : WithBot ℕ)
    (windows : List (List Packet)) :
    (displayedOver openAead code highest windows).Pairwise (fun left right => left.1 < right.1) ∧
      ∀ output ∈ displayedOver openAead code highest windows, highest < output.1 := by
  induction windows generalizing highest with
  | nil => simp [displayedOver]
  | cons window windows ih =>
      obtain ⟨hincreasing, hlater⟩ := ih (receiveAll openAead code highest window).1.highest
      obtain ⟨hwindow, hstart⟩ := Collector.collect_increasing (recovery code) ⟨highest, []⟩
        (shards openAead window)
      obtain ⟨hgrows, hbelow⟩ := Collector.collect_highest (recovery code) ⟨highest, []⟩
        (shards openAead window)
      rw [List.pairwise_map] at hwindow
      rw [displayedOver, List.pairwise_append, List.forall_mem_append]
      refine ⟨⟨hwindow, hincreasing, fun left hleft right hright => ?_⟩, hstart,
        fun output hmem => hgrows.trans_lt (hlater output hmem)⟩
      exact WithBot.coe_lt_coe.mp ((hbelow left hleft).trans_lt (hlater right hright))

theorem shards_append (openAead : OpenAead) (first second : List Packet) :
    shards openAead (first ++ second) = shards openAead first ++ shards openAead second :=
  List.filterMap_append

theorem shards_cons (openAead : OpenAead) (packet : Packet) (received : List Packet) :
    shards openAead (packet :: received) =
      (shardOf openAead packet).toList ++ shards openAead received := by
  cases hshard : shardOf openAead packet with
  | none => rw [shards, List.filterMap_cons_none hshard]; rfl
  | some shard => rw [shards, List.filterMap_cons_some hshard]; rfl

/-- The shard that follows some of the shards stands in a packet that follows others. -/
theorem shards_eq_append_cons {openAead : OpenAead} {received : List Packet} {shard : Shard}
    {before after : List Shard} (hsplit : shards openAead received = before ++ shard :: after) :
    ∃ earlier last later, received = earlier ++ last :: later ∧
      shards openAead earlier = before ∧
      shards openAead (earlier ++ [last]) = before ++ [shard] := by
  obtain ⟨earlier, rest, rfl, rfl, hrest⟩ := List.filterMap_eq_append_iff.mp hsplit
  obtain ⟨silent, last, later, rfl, hsilent, hlast, -⟩ := List.filterMap_eq_cons_iff.mp hrest
  have hnone : shards openAead silent = [] := List.filterMap_eq_nil_iff.mpr hsilent
  have hbefore : shards openAead (earlier ++ silent) = earlier.filterMap (shardOf openAead) := by
    rw [shards_append, hnone, List.append_nil]
    rfl
  refine ⟨earlier ++ silent, last, later, by simp, hbefore, ?_⟩
  rw [shards_append, hbefore, shards_cons, hlast]
  rfl

/-! ## Packets of a session -/

/-- A packet that carries a slice opens to the shard it was made from. -/
theorem shardOf_eq_some {openAead : OpenAead} {sessionId : SessionId}
    {rendezvousSecs : RendezvousSecs} {dataShards parityShards index : ℕ} {plaintext : Slice}
    {encryption : Encryption} {packet : Packet}
    (hcarries : CarriesShard sessionId rendezvousSecs dataShards parityShards index plaintext
      encryption packet)
    (hopens : Opens openAead encryption) :
    shardOf openAead packet =
      some ⟨sessionId.raw.toNat, ⟨dataShards, parityShards⟩, index, plaintext⟩ := by
  rw [shardOf, openPacket_eq_some hcarries hopens, Option.map_some, hcarries.sessionId_eq,
    hcarries.shardIndex_eq, hcarries.dataShards_eq, hcarries.parityShards_eq]

/-- The twelve authenticated bytes of a packet hold its header. -/
theorem read_of_aad {builder : PacketBuilder} {shardIndex : ShardIndex} {packet : Packet}
    (haad : (builder.buildAad shardIndex).toList = slice packet.toList 0 12) :
    Header.read packet.toList =
      ⟨builder.sessionId, shardIndex, builder.dataShards, builder.parityShards,
        builder.rendezvousSecs⟩ := by
  have hsplit : packet.toList =
      (builder.buildAad shardIndex).toList ++ packet.toList.drop 12 := by
    rw [haad, slice, List.drop_zero, List.take_append_drop]
  rw [hsplit]
  exact read_buildAad_append builder shardIndex _

/-- The AEAD has made this packet's tag and ciphertext in this encryption. -/
structure SealedBy (packet : Packet) (encryption : Encryption) : Prop where
  nonce_eq : encryption.nonce.toList = slice packet.toList 0 4 ++ List.replicate 8 0
  aad_eq : encryption.aad.toList = slice packet.toList 0 12
  reply_eq : ∃ item, encryption.reply = .ok item ∧ item.tag.toList = slice packet.toList 12 16 ∧
    item.buffer = slice packet.toList 28 1400

/-- A packet that opens to what a session has encrypted is the shard at that place of the
session. -/
theorem shardOf_of_sealedBy {openAead : OpenAead} {sessionId : SessionId}
    {rendezvousSecs : RendezvousSecs} {dataShards parityShards index : ℕ} {shard : Slice}
    {reply : Except FiudpError Sealed} {packet : Packet} {opened : Header × Slice}
    (hfits : dataShards + parityShards ≤ 65535) (hindex : index < dataShards + parityShards)
    (hopened : openPacket openAead packet = some opened) (hshard : opened.2 = shard)
    (hsealed : SealedBy packet (encryptionOf
      (sessionBuilder sessionId rendezvousSecs dataShards parityShards) sessionId index shard
      reply)) :
    shardOf openAead packet =
      some ⟨sessionId.raw.toNat, ⟨dataShards, parityShards⟩, index, shard⟩ := by
  have hheader : opened.1 = Header.read packet.toList := by
    rw [openPacket, Option.map_eq_some_iff] at hopened
    obtain ⟨slice, -, rfl⟩ := hopened
    rfl
  have hdata : (UInt16.ofNat dataShards).toNat = dataShards := toNat_ofNat_of_le (by omega)
  have hparity : (UInt16.ofNat parityShards).toNat = parityShards := toNat_ofNat_of_le (by omega)
  have hposition : (UInt16.ofNat index).toNat = index := toNat_ofNat_of_le (by omega)
  rw [shardOf, hopened, Option.map_some, hheader, read_of_aad hsealed.aad_eq, hshard,
    sessionBuilder]
  simp only [hdata, hparity, hposition]

/-! ## Shards of known sessions -/

section Sessions

variable {code : FecCode}

/-- The shards all belong to sessions with one layout and one word each, so they are
genuine for the recovery. -/
theorem genuine_of_sessions
    (hcode : ∀ dataShards parityShards,
      ErasureCode.Determines dataShards (code dataShards parityShards))
    (session : ℕ → Layout → List Slice → Prop)
    (hunique : ∀ round layout word other otherWord, session round layout word →
      session round other otherWord → layout = other ∧ word = otherWord)
    (hword : ∀ round layout word, session round layout word →
      word ∈ words code layout.dataShards layout.parityShards)
    {received : List Shard}
    (hreceived : ∀ shard ∈ received, ∃ word, session shard.round shard.layout word ∧
      word[shard.index]? = some shard.item)
    {value : ℕ → List UInt8}
    (hvalue : ∀ round layout word, session round layout word →
      value round = (word.take layout.dataShards).flatten) :
    Collector.Genuine (recovery code) value received where
  layout_eq := by
    intro left hleft right hright hround
    obtain ⟨word, hsession, -⟩ := hreceived left hleft
    obtain ⟨other, hother, -⟩ := hreceived right hright
    rw [hround] at hsession
    exact (hunique _ _ _ _ _ hsession hother).1
  rebuilds := by
    intro shard hshard items hitems hnodup henough
    obtain ⟨word, hsession, -⟩ := hreceived shard hshard
    have hagrees : ErasureCode.Agrees word items := by
      intro item hitem
      obtain ⟨other, hother, hround, rfl⟩ := Collector.mem_pieces_iff.mp (hitems item hitem)
      obtain ⟨otherWord, hotherSession, hindex⟩ := hreceived other hother
      rw [hround] at hotherSession
      rwa [(hunique _ _ _ _ _ hsession hotherSession).2]
    have hcard : shard.layout.dataShards ≤ (items.map Prod.fst).toFinset.card := by
      rw [List.toFinset_card_of_nodup hnodup, List.length_map]
      exact henough
    change (ErasureCode.recover _ items).map _ = _
    rw [ErasureCode.recover_eq_some (determines_words hcode _ _) (hword _ _ _ hsession) hagrees
      hcard, hvalue _ _ _ hsession]
    rfl

end Sessions

end Fiudp.Receiver
