import Fiudp.Sender.Pipeline

/-!
# Traces of the pipeline's stages

For every stage of `send`, what its traces look like and what it returns along
them.  Later proofs use these lemmas and do not unfold the stages.
-/

namespace Fiudp.Sender

open ByteLayout Protocol Interaction

variable {target : Target}

/-! ## Single calls -/

theorem returns_attempt_iff {α : Type}
    (program : Program Call (Reply target) (Except FiudpError α))
    (trace : Trace Call (Reply target)) (result : Result α) :
    Returns (attempt program).run trace result ↔
      ∃ reply, Returns program trace reply ∧ result = reply.mapError Failure.error :=
  Fallible.returns_mapErr_iff _ _ _ _

theorem returns_encode_iff (dataShards parityShards : ℕ) (shards : List Slice)
    (trace : Trace Call (Reply target))
    (result : Result {out : List Slice // out.length = shards.length}) :
    Returns (encode dataShards parityShards shards).run trace result ↔
      ∃ reply : Except FiudpError {out : List Slice // out.length = shards.length},
        trace = [⟨.encode dataShards parityShards shards, reply⟩] ∧
          result = reply.mapError .error :=
  (returns_attempt_iff _ _ _).trans
    (exists_congr fun _ => and_congr_left' (returns_perform_iff _ _ _))

theorem returns_encryptInPlace_iff (nonce : Nonce) (aad : Aad) (buffer : Slice)
    (trace : Trace Call (Reply target)) (result : Result Sealed) :
    Returns (encryptInPlace nonce aad buffer).run trace result ↔
      ∃ reply : Except FiudpError Sealed,
        trace = [⟨.encryptInPlace nonce aad buffer, reply⟩] ∧
          result = reply.mapError .error :=
  (returns_attempt_iff _ _ _).trans
    (exists_congr fun _ => and_congr_left' (returns_perform_iff _ _ _))

theorem returns_sendPacket_iff (packet : Packet) (trace : Trace Call (Reply target))
    (result : Result Unit) :
    Returns (sendPacket packet).run trace result ↔
      ∃ reply : Except FiudpError Unit,
        trace = [⟨.sendPacket packet, reply⟩] ∧ result = reply.mapError .error :=
  (returns_attempt_iff _ _ _).trans
    (exists_congr fun _ => and_congr_left' (returns_perform_iff _ _ _))

/-! ## Slice lengths -/

/-- The components leave every slice they are given at its length. -/
def KeepsLengths : Event Call (Reply target) → Prop
  | ⟨.encode _ _ shards, reply⟩ =>
      ∀ out, reply = .ok out → out.val.map List.length = shards.map List.length
  | ⟨.encryptInPlace _ _ buffer, reply⟩ =>
      ∀ encrypted, reply = .ok encrypted → encrypted.buffer.length = buffer.length
  | _ => True

/-! ## The encryption loop -/

/-- The encryption of the shard at position `index` of the session. -/
def encryptEvent (builder : PacketBuilder) (sessionId : SessionId) (index : ℕ)
    (shard : Slice) (reply : Except FiudpError Sealed) : Event Call (Reply target) :=
  ⟨.encryptInPlace (Crypto.deriveNonce sessionId ⟨UInt16.ofNat index⟩)
    (builder.buildAad ⟨UInt16.ofNat index⟩) shard, reply⟩

/-- The packet assembled for the shard at position `index`. -/
def packetOf (builder : PacketBuilder) (index : ℕ) (encrypted : Sealed) : Packet :=
  (PacketBuilder.writePacket (Bytes.zeroes packetSize)
    (builder.buildAad ⟨UInt16.ofNat index⟩) encrypted.tag encrypted.buffer).2

/-- The encryptions of consecutive shards, from position `index` on. -/
def encryptEvents (builder : PacketBuilder) (sessionId : SessionId) :
    ℕ → List Slice → List Sealed → Trace Call (Reply target)
  | index, shard :: shards, encrypted :: rest =>
      encryptEvent builder sessionId index shard (.ok encrypted) ::
        encryptEvents builder sessionId (index + 1) shards rest
  | _, _, _ => []

/-- The packets assembled from consecutive encryptions. -/
def packetsFrom (builder : PacketBuilder) : ℕ → List Sealed → List Packet
  | _, [] => []
  | index, encrypted :: rest =>
      packetOf builder index encrypted :: packetsFrom builder (index + 1) rest

theorem toList_packetOf (builder : PacketBuilder) (index : ℕ) {encrypted : Sealed}
    (hlength : encrypted.buffer.length = shardSize) :
    (packetOf builder index encrypted).toList =
      (builder.buildAad ⟨UInt16.ofNat index⟩).toList ++ encrypted.tag.toList ++
        encrypted.buffer :=
  (PacketBuilder.writePacket_of_length hlength _ _ _).2

theorem read_packetOf (builder : PacketBuilder) (index : ℕ) {encrypted : Sealed}
    (hlength : encrypted.buffer.length = shardSize) :
    Header.read (packetOf builder index encrypted).toList =
      ⟨builder.sessionId, ⟨UInt16.ofNat index⟩, builder.dataShards, builder.parityShards,
        builder.rendezvousSecs⟩ := by
  rw [toList_packetOf builder index hlength, List.append_assoc]
  exact read_buildAad_append builder ⟨UInt16.ofNat index⟩ _

@[simp]
theorem length_packetsFrom (builder : PacketBuilder) (index : ℕ)
    (encrypted : List Sealed) :
    (packetsFrom builder index encrypted).length = encrypted.length := by
  induction encrypted generalizing index with
  | nil => rfl
  | cons head rest ih => simp [packetsFrom, ih]

theorem getElem?_packetsFrom (builder : PacketBuilder) (index position : ℕ)
    (encrypted : List Sealed) :
    (packetsFrom builder index encrypted)[position]? =
      encrypted[position]?.map (packetOf builder (index + position)) := by
  induction encrypted generalizing index position with
  | nil => simp [packetsFrom]
  | cons head rest ih =>
      cases position with
      | zero => rfl
      | succ position =>
          have hshift : index + 1 + position = index + (position + 1) := by omega
          simpa [packetsFrom, hshift] using ih (index + 1) position

theorem writePacket_eq_packetOf (builder : PacketBuilder) (index : ℕ) {encrypted : Sealed}
    (hlength : encrypted.buffer.length = shardSize) :
    PacketBuilder.writePacket (Bytes.zeroes packetSize)
        (builder.buildAad ⟨UInt16.ofNat index⟩) encrypted.tag encrypted.buffer =
      (.ok (), packetOf builder index encrypted) :=
  Prod.ext (PacketBuilder.writePacket_of_length hlength _ _ _).1 rfl

/-- The body of the encryption loop on a full shard: neither the debug assertion
nor the size check of `write_packet` stops it. -/
theorem returns_preparePackets_cons (builder : PacketBuilder) (sessionId : SessionId)
    (index : ℕ) {shard : Slice} (shards : List Slice) (hsize : shard.length = shardSize)
    {trace : Trace Call (Reply target)} {result : Result (List Packet)}
    (hkeeps : ∀ event ∈ trace, KeepsLengths event)
    (hreturns :
      Returns (preparePackets builder sessionId index (shard :: shards)).run trace result) :
    (∃ error, trace = [encryptEvent builder sessionId index shard (.error error)] ∧
      result = .error (.error error)) ∨
    ∃ encrypted tail later, encrypted.buffer.length = shardSize ∧
      trace = encryptEvent builder sessionId index shard (.ok encrypted) :: tail ∧
      Returns (preparePackets builder sessionId (index + 1) shards).run tail later ∧
      result = later.map (packetOf builder index encrypted :: ·) := by
  rw [preparePackets, if_neg (by simp [hsize]), returns_try_iff] at hreturns
  simp only [returns_encryptInPlace_iff] at hreturns
  rcases hreturns with ⟨failure, rfl, reply, rfl, hreply⟩ |
    ⟨first, second, encrypted, rfl, ⟨reply, rfl, hreply⟩, hrest⟩
  · cases reply with
    | error error =>
        cases hreply
        exact .inl ⟨error, rfl, rfl⟩
    | ok encrypted => cases hreply
  · cases reply with
    | error error => cases hreply
    | ok encrypted =>
        cases hreply
        have hlength : encrypted.buffer.length = shardSize :=
          (hkeeps _ List.mem_cons_self encrypted rfl).trans hsize
        rw [writePacket_eq_packetOf builder index hlength] at hrest
        obtain ⟨later, hlater, hresult⟩ := (returns_map_iff _ _ _ _).mp hrest
        exact .inr ⟨encrypted, second, later, hlength, rfl, hlater, hresult⟩

/-- The encryption loop encrypts the shards in index order and stops at the first
failure. -/
theorem returns_preparePackets (builder : PacketBuilder) (sessionId : SessionId)
    (index : ℕ) (shards : List Slice) (hsize : ∀ shard ∈ shards, shard.length = shardSize)
    {trace : Trace Call (Reply target)} {result : Result (List Packet)}
    (hkeeps : ∀ event ∈ trace, KeepsLengths event)
    (hreturns : Returns (preparePackets builder sessionId index shards).run trace result) :
    ∃ encrypted : List Sealed, (∀ item ∈ encrypted, item.buffer.length = shardSize) ∧
      ((encrypted.length = shards.length ∧
          trace = encryptEvents builder sessionId index shards encrypted ∧
          result = .ok (packetsFrom builder index encrypted)) ∨
        ∃ shard error, shards[encrypted.length]? = some shard ∧
          trace = encryptEvents builder sessionId index shards encrypted ++
            [encryptEvent builder sessionId (index + encrypted.length) shard
              (.error error)] ∧
          result = .error (.error error)) := by
  induction shards generalizing index trace result with
  | nil =>
      simp only [preparePackets, Fallible.run_pure, returns_done_iff] at hreturns
      obtain ⟨rfl, rfl⟩ := hreturns
      exact ⟨[], by simp, .inl ⟨rfl, rfl, rfl⟩⟩
  | cons shard shards ih =>
      simp only [List.forall_mem_cons] at hsize
      rcases returns_preparePackets_cons builder sessionId index shards hsize.1 hkeeps
        hreturns with ⟨error, rfl, rfl⟩ | ⟨head, tail, later, hhead, rfl, hlater, rfl⟩
      · exact ⟨[], by simp, .inr ⟨shard, error, rfl, rfl, rfl⟩⟩
      · simp only [List.forall_mem_cons] at hkeeps
        obtain ⟨rest, hrest, ⟨hlength, rfl, rfl⟩ | ⟨bad, error, hbad, rfl, rfl⟩⟩ :=
          ih (index + 1) hsize.2 hkeeps.2 hlater
        · exact ⟨head :: rest, List.forall_mem_cons.mpr ⟨hhead, hrest⟩,
            .inl ⟨by simp [hlength], rfl, rfl⟩⟩
        · refine ⟨head :: rest, List.forall_mem_cons.mpr ⟨hhead, hrest⟩,
            .inr ⟨bad, error, hbad, ?_, rfl⟩⟩
          rw [List.length_cons, Nat.add_comm rest.length 1, ← Nat.add_assoc]
          rfl

/-! ## The FEC stage -/

theorem returns_fecStage (dataShards parityShards : ℕ) (shards : List Slice)
    {trace : Trace Call (Reply target)} {result : Result (List Slice)}
    (hreturns : Returns (fecStage dataShards parityShards shards).run trace result) :
    (parityShards = 0 ∧ trace = [] ∧ result = .ok shards) ∨
      0 < parityShards ∧
        ∃ reply : Except FiudpError {out : List Slice // out.length = shards.length},
          trace = [⟨.encode dataShards parityShards shards, reply⟩] ∧
            result = (reply.map Subtype.val).mapError .error := by
  by_cases hparity : parityShards > 0
  · rw [fecStage, if_pos hparity] at hreturns
    obtain ⟨inner, hinner, rfl⟩ := (returns_map_iff _ _ _ _).mp hreturns
    obtain ⟨reply, rfl, rfl⟩ := (returns_encode_iff _ _ _ _ _).mp hinner
    exact .inr ⟨hparity, reply, rfl, by cases reply <;> rfl⟩
  · rw [fecStage, if_neg hparity] at hreturns
    obtain ⟨rfl, rfl⟩ := (returns_done_iff _ _ _).mp hreturns
    exact .inl ⟨by omega, rfl, rfl⟩

/-! ## The chaos stages -/

/-- The calls of the random number generator. -/
def Call.IsDraw : Call → Prop
  | .genRangeTo _ | .genPercent | .shuffle _ => True
  | _ => False

/-- `items` without the `count` items from `start` on. -/
def withoutWindow {α : Type} (items : List α) (start count : ℕ) : List α :=
  items.take start ++ items.drop (min items.length (start + count))

/-- The items whose draw is at least `threshold`. -/
def keptByDraws {α : Type} (threshold : ℕ) (items : List α) (draws : List (Fin 100)) :
    List α :=
  ((items.zip draws).filter fun pair => threshold ≤ pair.2.val).map Prod.fst

theorem withoutWindow_zero {α : Type} {items : List α} {start : ℕ}
    (hstart : start ≤ items.length) : withoutWindow items start 0 = items := by
  rw [withoutWindow, Nat.add_zero, min_eq_right hstart, List.take_append_drop]

theorem withoutWindow_sublist {α : Type} (items : List α) (start count : ℕ) :
    (withoutWindow items start count).Sublist items := by
  by_cases hstart : items.length ≤ start
  · rw [withoutWindow, List.take_of_length_le hstart, min_eq_left (by omega),
      List.drop_length, List.append_nil]
  · calc (withoutWindow items start count).Sublist
          (items.take start ++ items.drop start) :=
        List.Sublist.append_left (List.drop_sublist_drop_left _ (by omega)) _
      _ = items := List.take_append_drop start items

theorem keptByDraws_sublist {α : Type} (threshold : ℕ) (items : List α)
    (draws : List (Fin 100)) (hlength : draws.length = items.length) :
    (keptByDraws threshold items draws).Sublist items := by
  calc (keptByDraws threshold items draws).Sublist ((items.zip draws).map Prod.fst) :=
        List.filter_sublist.map Prod.fst
    _ = items := List.map_fst_zip hlength.ge

theorem drain_eq {α : Type} (items : List α) {start count : ℕ}
    (hstart : start ≤ items.length) :
    drain items start (min items.length (start + count)) =
      .ok (withoutWindow items start count) := by
  rw [drain, if_pos ⟨by omega, by omega⟩]
  rfl

/-- The drawn range is never out of bounds and the end index never overflows, on
a vector that fits the memory. -/
theorem returns_burstStage (chaosBurst : UInt32) (ready : List Packet)
    (hlength : ready.length ≤ target.isizeMax)
    {trace : Trace Call (Reply target)} {result : Result (List Packet)}
    (hreturns : Returns (burstStage chaosBurst ready).run trace result) :
    ∃ start, start ≤ ready.length - chaosBurst.toNat ∧
      result = .ok (withoutWindow ready start chaosBurst.toNat) ∧
      ((trace = [] ∧ (chaosBurst.toNat = 0 ∨ ready = [])) ∨
        0 < chaosBurst.toNat ∧ ∃ draw : Fin (ready.length - chaosBurst.toNat + 1),
          start = draw.val ∧ trace = [⟨.genRangeTo (ready.length - chaosBurst.toNat), draw⟩]) := by
  by_cases hburst : chaosBurst.toNat > 0
  · rw [burstStage, if_pos hburst] at hreturns
    by_cases hempty : ready.isEmpty
    · rw [if_pos hempty] at hreturns
      obtain ⟨rfl, rfl⟩ := (returns_done_iff _ _ _).mp hreturns
      obtain rfl := List.isEmpty_iff.mp hempty
      exact ⟨0, by simp, by simp [withoutWindow], .inl ⟨rfl, .inr rfl⟩⟩
    · rw [if_neg hempty, returns_try_iff] at hreturns
      simp only [genRangeTo, Fallible.returns_call_iff] at hreturns
      rcases hreturns with ⟨failure, -, reply, -, hreply⟩ |
        ⟨first, second, start, rfl, ⟨reply, rfl, hreply⟩, hrest⟩
      · cases hreply
      · cases hreply
        have hstart : start.val ≤ ready.length - chaosBurst.toNat := Nat.lt_succ_iff.mp start.isLt
        have hburstLt := chaosBurst.toNat_lt
        have husize := target.usizeMax_eq
        have hisize := target.isizeMax_eq
        have hfits : start.val + chaosBurst.toNat ≤ target.usizeMax := by omega
        rw [Target.add_eq_ok hfits, Fallible.ofExcept_ok_bind, drain_eq _ (by omega)] at hrest
        obtain ⟨rfl, rfl⟩ := (returns_done_iff _ _ _).mp hrest
        exact ⟨start.val, hstart, rfl, .inr ⟨hburst, start, rfl, rfl⟩⟩
  · rw [burstStage, if_neg hburst] at hreturns
    obtain ⟨rfl, rfl⟩ := (returns_done_iff _ _ _).mp hreturns
    have hzero : chaosBurst.toNat = 0 := by omega
    exact ⟨0, by simp, by simp [withoutWindow, hzero], .inl ⟨rfl, .inl hzero⟩⟩

theorem returns_retainByDraw (chaosDrop : UInt8) (ready : List Packet)
    {trace : Trace Call (Reply target)} {result : Result (List Packet)}
    (hreturns : Returns (retainByDraw chaosDrop ready).run trace result) :
    ∃ draws : List (Fin 100), draws.length = ready.length ∧
      trace = draws.map (fun draw => ⟨.genPercent, draw⟩) ∧
      result = .ok (keptByDraws chaosDrop.toNat ready draws) := by
  induction ready generalizing trace result with
  | nil =>
      obtain ⟨rfl, rfl⟩ := (returns_done_iff _ _ _).mp hreturns
      exact ⟨[], rfl, rfl, rfl⟩
  | cons packet ready ih =>
      rw [retainByDraw, returns_try_iff] at hreturns
      simp only [genPercent, Fallible.returns_call_iff] at hreturns
      rcases hreturns with ⟨failure, -, reply, -, hreply⟩ |
        ⟨first, second, draw, rfl, ⟨reply, rfl, hreply⟩, hrest⟩
      · cases hreply
      · cases hreply
        obtain ⟨inner, hinner, rfl⟩ := (returns_map_iff _ _ _ _).mp hrest
        obtain ⟨draws, hdraws, rfl, rfl⟩ := ih hinner
        refine ⟨draw :: draws, by simp [hdraws], rfl, ?_⟩
        by_cases hkept : chaosDrop.toNat ≤ draw.val
        · simp [keptByDraws, Except.map, hkept]
        · simp [keptByDraws, Except.map, hkept]

theorem returns_shuffleStage (chaosShuffle : Bool) (ready : List Packet)
    {trace : Trace Call (Reply target)} {result : Result (List Packet)}
    (hreturns : Returns (shuffleStage chaosShuffle ready).run trace result) :
    (chaosShuffle = false ∧ trace = [] ∧ result = .ok ready) ∨
      chaosShuffle = true ∧ ∃ reply : {out : List Packet // out.Perm ready},
        trace = [⟨.shuffle ready, reply⟩] ∧ result = .ok reply.val := by
  cases chaosShuffle with
  | false =>
      obtain ⟨rfl, rfl⟩ := (returns_done_iff _ _ _).mp hreturns
      exact .inl ⟨rfl, rfl, rfl⟩
  | true =>
      rw [shuffleStage, if_pos rfl] at hreturns
      obtain ⟨inner, hinner, rfl⟩ := (returns_map_iff _ _ _ _).mp hreturns
      obtain ⟨reply, rfl, rfl⟩ := (Fallible.returns_call_iff _ _ _).mp hinner
      exact .inr ⟨rfl, reply, rfl, rfl⟩

/-- What the chaos filters have in common: they make draws only, never fail, and
leave a subsequence; a filter that is off leaves the packets alone. -/
structure Filters (off : Prop) (ready : List Packet) (trace : Trace Call (Reply target))
    (kept : List Packet) : Prop where
  sublist : kept.Sublist ready
  draws : ∀ event ∈ trace, event.call.IsDraw
  unchanged : off → trace = [] ∧ kept = ready

theorem burstStage_filters (chaosBurst : UInt32) (ready : List Packet)
    (hlength : ready.length ≤ target.isizeMax)
    {trace : Trace Call (Reply target)} {result : Result (List Packet)}
    (hreturns : Returns (burstStage chaosBurst ready).run trace result) :
    ∃ kept, result = .ok kept ∧ Filters (chaosBurst = 0) ready trace kept := by
  obtain ⟨start, hstart, rfl, htrace⟩ := returns_burstStage _ _ hlength hreturns
  refine ⟨_, rfl, withoutWindow_sublist _ _ _, ?_, ?_⟩
  · rcases htrace with ⟨rfl, -⟩ | ⟨-, draw, -, rfl⟩ <;> simp [Call.IsDraw]
  · rintro rfl
    rcases htrace with ⟨rfl, -⟩ | ⟨hburst, -⟩
    · exact ⟨rfl, withoutWindow_zero (by simpa using hstart)⟩
    · simp at hburst

theorem dropStage_filters (chaosDrop : UInt8) (ready : List Packet)
    {trace : Trace Call (Reply target)} {result : Result (List Packet)}
    (hreturns : Returns (dropStage chaosDrop ready).run trace result) :
    ∃ kept, result = .ok kept ∧ Filters (chaosDrop = 0) ready trace kept := by
  by_cases hdrop : chaosDrop.toNat > 0
  · rw [dropStage, if_pos hdrop] at hreturns
    obtain ⟨draws, hdraws, rfl, rfl⟩ := returns_retainByDraw chaosDrop ready hreturns
    refine ⟨_, rfl, keptByDraws_sublist _ _ _ hdraws, by simp [Call.IsDraw], ?_⟩
    rintro rfl
    simp at hdrop
  · rw [dropStage, if_neg hdrop] at hreturns
    obtain ⟨rfl, rfl⟩ := (returns_done_iff _ _ _).mp hreturns
    exact ⟨_, rfl, .refl _, by simp, fun _ => ⟨rfl, rfl⟩⟩

/-- The chaos filters leave a permutation of a subsequence of the packets; with
all of them off they leave every packet. -/
theorem returns_chaos (self : FiudpSender) (ready : List Packet)
    (hlength : ready.length ≤ target.isizeMax)
    {trace : Trace Call (Reply target)} {result : Result (List Packet)}
    (hreturns : Returns (self.chaos ready).run trace result) :
    ∃ survivors final, survivors.Sublist ready ∧ final.Perm survivors ∧
      result = .ok final ∧ (∀ event ∈ trace, event.call.IsDraw) ∧
      (self.chaosBurst = 0 ∧ self.chaosDrop = 0 ∧ self.chaosShuffle = false →
        trace = [] ∧ final = ready) := by
  rw [FiudpSender.chaos, returns_try_iff] at hreturns
  rcases hreturns with ⟨failure, -, hburst⟩ | ⟨first, rest, burst, rfl, hburst, hrest⟩
  · obtain ⟨kept, hok, -⟩ := burstStage_filters _ _ hlength hburst
    cases hok
  obtain ⟨kept, hok, hfirst⟩ := burstStage_filters _ _ hlength hburst
  cases hok
  rw [returns_try_iff] at hrest
  rcases hrest with ⟨failure, -, hdrop⟩ | ⟨second, third, dropped, rfl, hdrop, hshuffle⟩
  · obtain ⟨kept, hok, -⟩ := dropStage_filters _ _ hdrop
    cases hok
  obtain ⟨kept, hok, hsecond⟩ := dropStage_filters _ _ hdrop
  cases hok
  have hdraws := List.forall_mem_append.mpr ⟨hfirst.draws, hsecond.draws⟩
  rcases returns_shuffleStage _ _ hshuffle with ⟨-, rfl, rfl⟩ | ⟨hon, reply, rfl, rfl⟩
  · refine ⟨dropped, dropped, hsecond.sublist.trans hfirst.sublist, .refl _, rfl,
      by simpa using hdraws, ?_⟩
    rintro ⟨hburstOff, hdropOff, -⟩
    obtain ⟨rfl, rfl⟩ := hfirst.unchanged hburstOff
    obtain ⟨rfl, rfl⟩ := hsecond.unchanged hdropOff
    exact ⟨rfl, rfl⟩
  · refine ⟨dropped, reply.val, hsecond.sublist.trans hfirst.sublist, reply.property, rfl,
      ?_, fun hoff => absurd hoff.2.2 (by simp [hon])⟩
    rw [← List.append_assoc, List.forall_mem_append]
    exact ⟨hdraws, by simp [Call.IsDraw]⟩

/-! ## The transmission loop -/

/-- The events of a transmission loop that does not fail. -/
def sendEvents (delay : Duration) (packetCount : ℕ) :
    ℕ → List Packet → Trace Call (Reply target)
  | _, [] => []
  | index, packet :: rest =>
      ⟨.sendPacket packet, .ok ()⟩ ::
        (if index + 1 < packetCount then [⟨.sleep delay, ()⟩] else []) ++
          sendEvents delay packetCount (index + 1) rest

/-- The pause after a packet, if another one follows. -/
theorem returns_pause {delay : Duration} {packetCount index : ℕ}
    {rest : Pipeline target Unit} {trace : Trace Call (Reply target)}
    {result : Result Unit}
    (hreturns : Returns (ExceptT.run (if index + 1 < packetCount then do sleep delay; rest
      else rest)) trace result) :
    ∃ tail, trace = (if index + 1 < packetCount then [⟨.sleep delay, ()⟩] else []) ++ tail ∧
      Returns rest.run tail result := by
  by_cases hnext : index + 1 < packetCount
  · simp only [if_pos hnext, returns_try_iff, sleep, Fallible.returns_call_iff] at hreturns ⊢
    rcases hreturns with ⟨failure, -, reply, -, hreply⟩ |
      ⟨first, second, slept, rfl, ⟨reply, rfl, -⟩, hrest⟩
    · cases hreply
    · exact ⟨second, rfl, hrest⟩
  · simp only [if_neg hnext] at hreturns ⊢
    exact ⟨trace, rfl, hreturns⟩

/-- Packets are sent in order; a failing send is the last one. -/
theorem returns_transmit (delay : Duration) (packetCount index : ℕ)
    (packets : List Packet) {trace : Trace Call (Reply target)} {result : Result Unit}
    (hreturns : Returns (transmit delay packetCount index packets).run trace result) :
    (trace = sendEvents delay packetCount index packets ∧ result = .ok ()) ∨
      ∃ sent packet error, packets[sent]? = some packet ∧
        trace = sendEvents delay packetCount index (packets.take sent) ++
          [⟨.sendPacket packet, .error error⟩] ∧
        result = .error (.error error) := by
  induction packets generalizing index trace result with
  | nil =>
      obtain ⟨rfl, rfl⟩ := (returns_done_iff _ _ _).mp hreturns
      exact .inl ⟨rfl, rfl⟩
  | cons packet packets ih =>
      rw [transmit, returns_try_iff] at hreturns
      simp only [returns_sendPacket_iff] at hreturns
      rcases hreturns with ⟨failure, rfl, reply, rfl, hreply⟩ |
        ⟨first, second, sent, rfl, ⟨reply, rfl, hreply⟩, hrest⟩
      · cases reply with
        | error error =>
            cases hreply
            exact .inr ⟨0, packet, error, rfl, rfl, rfl⟩
        | ok sent => cases hreply
      · cases reply with
        | error error => cases hreply
        | ok sent =>
            obtain ⟨tail, rfl, htail⟩ := returns_pause hrest
            rcases ih (index + 1) htail with ⟨rfl, rfl⟩ | ⟨count, bad, error, hbad, rfl, rfl⟩
            · exact .inl ⟨by simp [sendEvents], rfl⟩
            · exact .inr ⟨count + 1, bad, error, hbad, by simp [sendEvents], rfl⟩

end Fiudp.Sender
