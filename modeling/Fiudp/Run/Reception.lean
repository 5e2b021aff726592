import Fiudp.Run.Delivery

/-!
# When a frame is displayed

The exact condition on the packets that arrive: as many distinct shards of the session as it
has data shards, before enough of a later session has arrived.
-/

namespace Fiudp.Run

open ByteLayout Protocol Interaction Sender Session Os Receiver Attempt

variable {target : Target}

section Sessions

variable {attempts : List (Attempt target)} {openAead : OpenAead} (code : FecCode)
  {received : List Packet} {attempt : Attempt target} {id : SessionId} {frame : List UInt8}
  {slices : List Slice}

/-- A session is complete when as many of its shards have arrived as it has data shards. -/
theorem complete_iff (hincreasing : Increasing attempts)
    (hauthentic : Authentic openAead attempts received) (hmem : attempt ∈ attempts)
    (hsends : Sends attempt id frame slices) :
    Collector.Complete (recovery code) (shards openAead received) id.raw.toNat ↔
      dataCount frame ≤ (arrived openAead id.raw.toNat received).card := by
  have hlayout : ∀ shard ∈ shards openAead received, shard.round = id.raw.toNat →
      shard.layout.dataShards = dataCount frame := by
    intro shard hshard hround
    obtain ⟨word, hsession, -⟩ := exists_session_of_mem hauthentic hshard
    have hthis : SessionOf attempts shard.round _ slices :=
      ⟨attempt, hmem, id, frame, hsends, hround.symm, rfl⟩
    rw [(hsession.unique hincreasing hthis).1]
  constructor
  · rintro ⟨shard, hshard, hround, henough⟩
    rw [← hlayout shard hshard hround]
    exact henough
  · intro henough
    have hpositive := dataCount_pos hsends.accepted.nonempty
    obtain ⟨index, hindex⟩ := Finset.card_pos.mp (hpositive.trans_le henough)
    obtain ⟨shard, hshard, hround, -⟩ := Collector.mem_seen_iff.mp hindex
    refine ⟨shard, hshard, hround, ?_⟩
    change shard.layout.dataShards ≤ _
    rw [hlayout shard hshard hround]
    exact henough

/-- A complete session is one of the runs'. -/
theorem exists_of_complete {code : FecCode} {round : ℕ}
    (hauthentic : Authentic openAead attempts received)
    (hcomplete : Collector.Complete (recovery code) (shards openAead received) round) :
    ∃ attempt ∈ attempts, ∃ id frame slices, Sends attempt id frame slices ∧
      id.raw.toNat = round := by
  obtain ⟨shard, hshard, rfl, -⟩ := hcomplete
  obtain ⟨slices, ⟨attempt, hattempt, id, frame, hsends, hid, -⟩, -⟩ :=
    exists_session_of_mem hauthentic hshard
  exact ⟨attempt, hattempt, id, frame, slices, hsends, hid⟩

theorem Authentic.of_append {first second : List Packet}
    (hauthentic : Authentic openAead attempts (first ++ second)) :
    Authentic openAead attempts first :=
  fun packet hmem => hauthentic packet (List.mem_append_left _ hmem)

/-- The session is displayed at the first packet after which enough of its shards have
arrived, unless enough shards of a later session have arrived before. -/
def DisplayedAt (openAead : OpenAead) (attempts : List (Attempt target))
    (received : List Packet) (id : SessionId) (frame : List UInt8) : Prop :=
  ∃ earlier last later, received = earlier ++ last :: later ∧
    dataCount frame ≤ (arrived openAead id.raw.toNat (earlier ++ [last])).card ∧
    ∀ other ∈ attempts, ∀ otherId otherFrame otherSlices,
      Sends other otherId otherFrame otherSlices →
      dataCount otherFrame ≤ (arrived openAead otherId.raw.toNat earlier).card →
        otherId.raw.toNat < id.raw.toNat

theorem delivered_iff_displayedAt (hincreasing : Increasing attempts)
    (hauthentic : Authentic openAead attempts received) (hmem : attempt ∈ attempts)
    (hsends : Sends attempt id frame slices) (highest : WithBot ℕ) :
    Collector.Delivered (recovery code) highest (shards openAead received) id.raw.toNat ↔
      highest < id.raw.toNat ∧ DisplayedAt openAead attempts received id frame := by
  constructor
  · rintro ⟨before, shard, after, hsplit, hround, hstart, hcomplete, hbefore⟩
    obtain ⟨earlier, last, later, rfl, rfl, hlast⟩ := shards_eq_append_cons hsplit
    have hfirst : Authentic openAead attempts (earlier ++ [last]) := by
      rw [← List.singleton_append, ← List.append_assoc] at hauthentic
      exact hauthentic.of_append
    refine ⟨hstart, earlier, last, later, rfl, ?_, ?_⟩
    · rw [← hlast] at hcomplete
      exact (complete_iff code hincreasing hfirst hmem hsends).mp hcomplete
    · intro other hother otherId otherFrame otherSlices hotherSends henough
      exact hbefore _
        ((complete_iff code hincreasing hfirst.of_append hother hotherSends).mpr henough)
  · rintro ⟨hstart, earlier, last, later, rfl, henough, hlatest⟩
    have hfirst : Authentic openAead attempts (earlier ++ [last]) := by
      rw [← List.singleton_append, ← List.append_assoc] at hauthentic
      exact hauthentic.of_append
    have hbefore : ∀ other, Collector.Complete (recovery code) (shards openAead earlier) other →
        other < id.raw.toNat := by
      intro round hround
      obtain ⟨other, hother, otherId, otherFrame, otherSlices, hotherSends, rfl⟩ :=
        exists_of_complete hfirst.of_append hround
      exact hlatest other hother otherId otherFrame otherSlices hotherSends
        ((complete_iff code hincreasing hfirst.of_append hother hotherSends).mp hround)
    have hcomplete := (complete_iff code hincreasing hfirst hmem hsends).mpr henough
    have hnot : ¬ Collector.Complete (recovery code) (shards openAead earlier) id.raw.toNat :=
      fun hearly => lt_irrefl _ (hbefore _ hearly)
    -- The last packet is a shard of the session: it has completed it.
    rw [shards_append, shards_cons] at hcomplete
    cases hlast : shardOf openAead last with
    | none =>
        rw [hlast] at hcomplete
        exact absurd (by simpa [shards] using hcomplete) hnot
    | some shard =>
        rw [hlast] at hcomplete
        have hround : shard.round = id.raw.toNat := by
          by_contra hne
          exact hnot (Collector.Complete.of_concat_of_ne (by simpa [shards] using hcomplete) hne)
        refine ⟨shards openAead earlier, shard, shards openAead later, ?_, hround, hstart, ?_,
          hbefore⟩
        · rw [shards_append, shards_cons, hlast]
          rfl
        · simpa [shards] using hcomplete

/-- What is displayed of a session, when the ids of the runs increase. -/
theorem displayed_of_increasing {code : FecCode} (hincreasing : Increasing attempts)
    (hcode : ∀ dataShards parityShards,
      ErasureCode.Determines dataShards (code dataShards parityShards))
    (hsystematic : ∀ attempt ∈ attempts, Systematic code attempt)
    (hauthentic : Authentic openAead attempts received) (hmem : attempt ∈ attempts)
    (hsends : Sends attempt id frame slices) (highest : WithBot ℕ) (result : List UInt8) :
    (id.raw.toNat, result) ∈ displayed openAead code highest received ↔
      (highest < id.raw.toNat ∧ DisplayedAt openAead attempts received id frame) ∧
        result = paddedFrame frame := by
  obtain ⟨value, hgenuine, hvalue⟩ := exists_genuine hincreasing hcode hsystematic hauthentic
  rw [← delivered_iff_displayedAt code hincreasing hauthentic hmem hsends highest,
    ← hvalue attempt hmem id frame slices hsends]
  exact (Collector.collect_genuine highest hgenuine).2 _ _

end Sessions

/-- When a session is displayed, and as what: the receiver was still before it, enough of its
shards arrive, and no later session is completed first. -/
theorem displayed_iff {Node : Type} [DecidableEq Node] {locate : PathBuf → Node}
    {keyPath : PathBuf} {before after : FileContents} {attempts : List (Attempt target)}
    (hkeyPath : ∀ attempt ∈ attempts, attempt.config.keyPath = keyPath)
    (hhistory : History (NodeStep locate (locate (SessionIdStore.new keyPath).path)) before
      attempts after)
    {openAead : OpenAead} {code : FecCode}
    (hcode : ∀ dataShards parityShards,
      ErasureCode.Determines dataShards (code dataShards parityShards))
    (hsystematic : ∀ attempt ∈ attempts, Systematic code attempt)
    {received : List Packet} (hauthentic : Authentic openAead attempts received)
    {attempt : Attempt target} (hmem : attempt ∈ attempts) {id : SessionId}
    {frame : List UInt8} {slices : List Slice} (hsends : Sends attempt id frame slices)
    (highest : WithBot ℕ) (result : List UInt8) :
    (id.raw.toNat, result) ∈ displayed openAead code highest received ↔
      (highest < id.raw.toNat ∧ DisplayedAt openAead attempts received id frame) ∧
        result = paddedFrame frame :=
  displayed_of_increasing (History.increasing_of_keyPath hkeyPath hhistory) hcode hsystematic
    hauthentic hmem hsends highest result

/-- The first of two runs, whose datagrams all arrive after those of the second one. -/
theorem displayed_iff_sample :
    ∃ first second : Attempt Target.release64,
      (∃ slices, Sends second ⟨2⟩ sampleFrame.val slices) ∧ ∀ highest result,
        (1, result) ∈ displayed (fun _ _ _ ciphertext => some ciphertext) copyingCode highest
            (datagrams second.trace ++ datagrams first.trace) ↔
          (highest < ((1 : ℕ) : WithBot ℕ) ∧
            DisplayedAt (fun _ _ _ ciphertext => some ciphertext) [first, second]
              (datagrams second.trace ++ datagrams first.trace) ⟨1⟩ sampleFrame.val) ∧
            result = paddedFrame sampleFrame.val := by
  obtain ⟨first, second, after, hfirst, hsecond, hkeyPath, hhistory⟩ := exists_plainHistory
  obtain ⟨slices, hsends⟩ := hfirst.exists_sends
  have hauthentic : Authentic (fun _ _ _ ciphertext => some ciphertext) [first, second]
      (datagrams second.trace ++ datagrams first.trace) := by
    refine authentic_of_sent ?_ fun packet hmem => ?_
    · exact List.forall_mem_cons.mpr ⟨hfirst.opens, List.forall_mem_singleton.mpr hsecond.opens⟩
    · simpa [or_comm] using hmem
  refine ⟨first, second, hsecond.exists_sends, displayed_iff hkeyPath hhistory
    determines_copyingCode ?_ hauthentic List.mem_cons_self hsends⟩
  exact List.forall_mem_cons.mpr
    ⟨hfirst.systematic, List.forall_mem_singleton.mpr hsecond.systematic⟩

/-! ## One run -/

section Run

variable {attempt : Attempt target} {id : SessionId} {frame : List UInt8} {slices : List Slice}
  {openAead : OpenAead} {received : List Packet}

/-- What the run has sent is authentic. -/
theorem shardOf_of_mem_datagrams (hsends : Sends attempt id frame slices)
    (hopens : ∀ item ∈ encryptions attempt.trace, Opens openAead item.2)
    {packet : Packet} (hmem : packet ∈ datagrams attempt.trace) :
    ∃ shard, slices[headerIndex packet]? = some shard ∧
      shardOf openAead packet = some ⟨id.raw.toNat,
        ⟨dataCount frame, parityCount attempt.config.parityRatio frame⟩,
        headerIndex packet, shard⟩ := by
  obtain ⟨otherId, otherFrame, otherSlices, key, encrypted, final, honAir⟩ :=
    exists_onAir (.inl (List.ne_nil_of_mem hmem))
  obtain ⟨rfl, rfl, rfl⟩ := hsends.unique honAir.sends
  obtain ⟨index, shard, item, hshard, -, hencryption, hcarries⟩ := honAir.carries hmem
  obtain rfl : headerIndex packet = index := hcarries.shardIndex_eq
  exact ⟨shard, hshard, shardOf_eq_some hcarries (hopens _ hencryption)⟩

/-- The indices that have arrived are as many as the different packets. -/
theorem card_arrived (hsends : Sends attempt id frame slices)
    (hopens : ∀ item ∈ encryptions attempt.trace, Opens openAead item.2)
    (hreceived : received ⊆ datagrams attempt.trace) :
    (arrived openAead id.raw.toNat received).card = received.toFinset.card := by
  have himage : arrived openAead id.raw.toNat received = received.toFinset.image headerIndex := by
    ext index
    simp only [arrived, Collector.mem_seen_iff, shards, List.mem_filterMap, Finset.mem_image,
      List.mem_toFinset]
    constructor
    · rintro ⟨shard, ⟨packet, hpacket, hshard⟩, -, rfl⟩
      obtain ⟨item, -, heq⟩ := shardOf_of_mem_datagrams hsends hopens (hreceived hpacket)
      rw [hshard] at heq
      cases heq
      exact ⟨packet, hpacket, rfl⟩
    · rintro ⟨packet, hpacket, rfl⟩
      obtain ⟨item, -, heq⟩ := shardOf_of_mem_datagrams hsends hopens (hreceived hpacket)
      exact ⟨_, ⟨packet, hpacket, heq⟩, rfl, rfl⟩
  rw [himage, Finset.card_image_of_injOn]
  intro left hleft right hright heq
  simp only [Finset.mem_coe, List.mem_toFinset] at hleft hright
  obtain ⟨otherId, otherFrame, otherSlices, key, encrypted, final, honAir⟩ :=
    exists_onAir (.inl (List.ne_nil_of_mem (hreceived hleft)))
  exact List.inj_on_of_nodup_map honAir.nodup_headerIndex.2 (hreceived hleft) (hreceived hright)
    heq

/-- How many datagrams a run sends when only the burst filter is on. -/
theorem length_datagrams (hok : attempt.rest = .done (.ok ()))
    (hdrop : attempt.config.chaosDrop = 0) (hsends : Sends attempt id frame slices) :
    (datagrams attempt.trace).length =
      dataCount frame + parityCount attempt.config.parityRatio frame -
        min (dataCount frame + parityCount attempt.config.parityRatio frame)
          attempt.config.chaosBurst.toNat := by
  obtain ⟨otherId, bytes, otherSlices, key, encrypted, final, honAir⟩ := exists_onAir (.inr hok)
  obtain ⟨rfl, rfl, rfl⟩ := hsends.unique honAir.sends
  obtain ⟨fec, draws, hlaunched⟩ := honAir.launched
  have hlength : (sessionPackets attempt.config.parityRatio ⟨attempt.config.rendezvousSecs⟩ id
      bytes.val encrypted).length =
        dataCount bytes.val + parityCount attempt.config.parityRatio bytes.val := by
    rw [length_sessionPackets, hlaunched.length_eq, hlaunched.fecLeaves.length_eq]
  have hready : sessionPackets attempt.config.parityRatio ⟨attempt.config.rendezvousSecs⟩ id
      bytes.val encrypted ≠ [] := by
    have hpositive := dataCount_pos hlaunched.accepted.nonempty
    rw [← List.length_pos_iff, hlength]
    omega
  obtain ⟨burst, drop, shuffled, remaining, survivors, kept, -, hkept, hburst, hdropStep,
    hshuffle⟩ := chaos_steps hready hlaunched.length_packets_le hlaunched.chaos
  cases hkept
  have hzero : attempt.pipeline.chaosDrop.toNat = 0 := by
    rw [pipeline, hdrop]
    rfl
  rw [hzero] at hdropStep
  rw [honAir.datagrams_of_ok hok, hshuffle.perm.length_eq, hdropStep.eq_of_zero.2, ← hlength]
  exact hburst.length_eq

/-- The receiver that hears one run displays its frame once enough indices have arrived. -/
theorem displayed_eq_arrived {code : FecCode}
    (hcode : ∀ dataShards parityShards,
      ErasureCode.Determines dataShards (code dataShards parityShards))
    (hsystematic : Systematic code attempt) (hsends : Sends attempt id frame slices)
    (hopens : ∀ item ∈ encryptions attempt.trace, Opens openAead item.2)
    (hreceived : received ⊆ datagrams attempt.trace)
    {highest : WithBot ℕ} (hhighest : highest < id.raw.toNat) :
    displayed openAead code highest received =
      if dataCount frame ≤ (arrived openAead id.raw.toNat received).card then
        [(id.raw.toNat, paddedFrame frame)]
      else [] := by
  have hincreasing : Increasing [attempt] := List.pairwise_singleton _ _
  have hauthentic : Authentic openAead [attempt] received :=
    authentic_of_sent (List.forall_mem_singleton.mpr hopens) fun packet hmem =>
      ⟨attempt, List.mem_singleton_self _, hreceived hmem⟩
  have hall : ∀ other ∈ [attempt], Systematic code other := by simpa using hsystematic
  obtain ⟨value, hgenuine, hvalue⟩ := exists_genuine hincreasing hcode hall hauthentic
  have hmem : attempt ∈ [attempt] := List.mem_singleton_self _
  have hframes : issuedFrames [attempt] = [(id.raw.toNat, paddedFrame frame)] := by
    rw [issuedFrames, List.filterMap_cons_some, List.filterMap_nil]
    rw [hsends.sessionId_eq, hsends.frame_eq]
    rfl
  have hsublist : (displayed openAead code highest received).Sublist
      [(id.raw.toNat, paddedFrame frame)] := by
    rw [← hframes]
    obtain ⟨hdisplayed, -⟩ := Collector.collect_increasing (recovery code) ⟨highest, []⟩
      (shards openAead received)
    rw [List.pairwise_map] at hdisplayed
    exact sublist_of_subset hdisplayed (pairwise_issuedFrames hincreasing)
      (displayed_subset hincreasing hcode hall hauthentic highest)
  have hlatest : ∀ shard ∈ shards openAead received, shard.round ≤ id.raw.toNat := by
    intro shard hshard
    obtain ⟨packet, hpacket, heq⟩ := List.mem_filterMap.mp hshard
    obtain ⟨item, -, hthis⟩ := shardOf_of_mem_datagrams hsends hopens (hreceived hpacket)
    rw [heq] at hthis
    cases hthis
    exact le_rfl
  have hiff : (id.raw.toNat, paddedFrame frame) ∈ displayed openAead code highest received ↔
      dataCount frame ≤ (arrived openAead id.raw.toNat received).card := by
    rw [← complete_iff code hincreasing hauthentic hmem hsends]
    refine ((Collector.collect_genuine highest hgenuine).2 _ _).trans ?_
    rw [Collector.delivered_iff_of_le hlatest, hvalue attempt hmem id frame slices hsends]
    exact ⟨fun hboth => hboth.1.2, fun hcomplete => ⟨⟨hhighest, hcomplete⟩, rfl⟩⟩
  rcases List.sublist_singleton.mp hsublist with hnone | hone
  · rw [if_neg fun henough => by simpa [hnone] using hiff.mpr henough, hnone]
  · rw [if_pos (hiff.mp (by rw [hone]; exact List.mem_singleton_self _)), hone]

/-- A network that loses, repeats and reorders the datagrams of one run: the frame is
displayed exactly when as many different datagrams arrive as it has data shards. -/
theorem displayed_of_subset {code : FecCode}
    (hcode : ∀ dataShards parityShards,
      ErasureCode.Determines dataShards (code dataShards parityShards))
    (hsystematic : Systematic code attempt) (hsends : Sends attempt id frame slices)
    (hopens : ∀ item ∈ encryptions attempt.trace, Opens openAead item.2)
    (hreceived : received ⊆ datagrams attempt.trace)
    {highest : WithBot ℕ} (hhighest : highest < id.raw.toNat) :
    displayed openAead code highest received =
      if dataCount frame ≤ received.toFinset.card then [(id.raw.toNat, paddedFrame frame)]
      else [] := by
  rw [displayed_eq_arrived hcode hsystematic hsends hopens hreceived hhighest,
    card_arrived hsends hopens hreceived]

/-- A run that succeeds and drops nothing has sent something. -/
theorem datagrams_ne_nil (hok : attempt.rest = .done (.ok ()))
    (hdrop : attempt.config.chaosDrop = 0) (hburst : attempt.config.chaosBurst = 0) :
    datagrams attempt.trace ≠ [] := by
  obtain ⟨id, frame, slices, key, encrypted, final, honAir⟩ := exists_onAir (.inr hok)
  have hpositive := dataCount_pos honAir.sends.accepted.nonempty
  have hlength := length_datagrams hok hdrop honAir.sends
  rw [hburst, UInt32.toNat_zero, Nat.min_zero] at hlength
  apply List.ne_nil_of_length_pos
  omega

theorem PlainRun.exists_datagram {attempt : Attempt Target.release64} {raw : UInt16}
    (hplain : PlainRun attempt (sampleConfig sampleKeyPath) raw) :
    ∃ packet, packet ∈ datagrams attempt.trace :=
  List.exists_mem_of_ne_nil _ (datagrams_ne_nil hplain.rest_eq (by rw [hplain.config_eq]; rfl)
    (by rw [hplain.config_eq]; rfl))

/-- Only one datagram arrives, three times. -/
theorem displayed_of_subset_sample :
    ∃ (attempt : Attempt Target.release64) (packet : Packet), packet ∈ datagrams attempt.trace ∧
      displayed (fun _ _ _ ciphertext => some ciphertext) copyingCode ⊥ [packet, packet, packet] =
        if dataCount sampleFrame.val ≤ [packet, packet, packet].toFinset.card then
          [(1, paddedFrame sampleFrame.val)]
        else [] := by
  obtain ⟨attempt, raw, hraw, hplain, -⟩ :=
    Ready.exists_plainRun (sampleConfig sampleKeyPath) rfl rfl ready_sampleFiles (by omega)
  obtain rfl : raw = 1 := UInt16.toNat_inj.mp hraw
  obtain ⟨slices, hsends⟩ := hplain.exists_sends
  obtain ⟨packet, hpacket⟩ := hplain.exists_datagram
  exact ⟨attempt, packet, hpacket, displayed_of_subset determines_copyingCode hplain.systematic
    hsends hplain.opens (by simpa using hpacket) (WithBot.bot_lt_coe 1)⟩

/-- The frame of a run, if as many different packets of it arrive as it has data shards. -/
def recovered (attempt : Attempt target) (received : List Packet) : Option (ℕ × List UInt8) := do
  let id ← attempt.sessionId
  let frame ← inputFrame attempt.trace
  if frame ≠ [] ∧ dataCount frame ≤ received.toFinset.card then
    some (id.raw.toNat, paddedFrame frame)
  else none

theorem sessionId_of_recovered {output : ℕ × List UInt8}
    (hrecovered : recovered attempt received = some output) :
    ∃ id, attempt.sessionId = some id ∧ output.1 = id.raw.toNat := by
  simp only [recovered, Option.bind_eq_bind, Option.bind_eq_some_iff] at hrecovered
  obtain ⟨id, hid, frame, -, houtput⟩ := hrecovered
  by_cases henough : frame ≠ [] ∧ dataCount frame ≤ received.toFinset.card
  · rw [if_pos henough] at houtput
    cases houtput
    exact ⟨id, hid, rfl⟩
  · rw [if_neg henough] at houtput
    cases houtput

theorem displayed_eq_recovered {code : FecCode}
    (hcode : ∀ dataShards parityShards,
      ErasureCode.Determines dataShards (code dataShards parityShards))
    (hsystematic : Systematic code attempt)
    (hopens : ∀ item ∈ encryptions attempt.trace, Opens openAead item.2)
    (hreceived : received ⊆ datagrams attempt.trace) {highest : WithBot ℕ}
    (hhighest : ∀ id, attempt.sessionId = some id → highest < id.raw.toNat) :
    displayed openAead code highest received = (recovered attempt received).toList := by
  by_cases hnone : received = []
  · subst hnone
    have hrecovered : recovered attempt [] = none := by
      simp only [recovered, Option.bind_eq_bind, Option.bind_eq_none_iff]
      intro id _ frame _
      refine if_neg fun ⟨hframe, henough⟩ => ?_
      have hpositive := dataCount_pos hframe
      simp at henough
      omega
    rw [hrecovered]
    rfl
  · obtain ⟨packet, hpacket⟩ := List.exists_mem_of_ne_nil received hnone
    obtain ⟨id, frame, slices, key, encrypted, final, honAir⟩ :=
      exists_onAir (.inl (List.ne_nil_of_mem (hreceived hpacket)))
    have hsends := honAir.sends
    rw [displayed_eq_arrived hcode hsystematic hsends hopens hreceived
      (hhighest id hsends.sessionId_eq), card_arrived hsends hopens hreceived, recovered,
      hsends.sessionId_eq, hsends.frame_eq]
    simp only [Option.bind_eq_bind, Option.bind_some]
    by_cases henough : dataCount frame.val ≤ received.toFinset.card
    · rw [if_pos henough, if_pos ⟨hsends.accepted.nonempty, henough⟩]
      rfl
    · rw [if_neg henough, if_neg fun hboth => henough hboth.2]
      rfl

/-- The receiver is awake once for every run and hears nothing but datagrams of that run,
not all of them perhaps, in any order and repeatedly: it displays, in order, exactly the
frames of which enough has arrived. -/
theorem displayedOver_eq {Node : Type} [DecidableEq Node] {locate : PathBuf → Node}
    {keyPath : PathBuf} {before after : FileContents} {attempts : List (Attempt target)}
    (hkeyPath : ∀ attempt ∈ attempts, attempt.config.keyPath = keyPath)
    (hhistory : History (NodeStep locate (locate (SessionIdStore.new keyPath).path)) before
      attempts after)
    {code : FecCode}
    (hcode : ∀ dataShards parityShards,
      ErasureCode.Determines dataShards (code dataShards parityShards))
    (hsystematic : ∀ attempt ∈ attempts, Systematic code attempt)
    (hopens : ∀ attempt ∈ attempts, ∀ item ∈ encryptions attempt.trace, Opens openAead item.2)
    {windows : List (List Packet)}
    (hwindows : List.Forall₂ (fun attempt window => window ⊆ datagrams attempt.trace) attempts
      windows)
    {highest : WithBot ℕ} (hhighest : ∀ id ∈ issuedIds attempts, highest < (id : ℕ)) :
    displayedOver openAead code highest windows =
      (List.zipWith recovered attempts windows).reduceOption := by
  have hincreasing := History.increasing_of_keyPath hkeyPath hhistory
  clear hkeyPath hhistory
  induction hwindows generalizing highest with
  | nil => rfl
  | cons hwindow hwindows ih =>
      rename_i attempt window attempts windows
      simp only [List.forall_mem_cons] at hsystematic hopens
      obtain ⟨hlater, hincreasing⟩ := List.pairwise_cons.mp hincreasing
      have hfirst := displayed_eq_recovered hcode hsystematic.1 hopens.1 hwindow fun id hid =>
        hhighest id.raw.toNat (List.mem_filterMap.mpr
          ⟨attempt, List.mem_cons_self, by rw [hid]; rfl⟩)
      rw [displayedOver, hfirst, List.zipWith_cons_cons, ih hsystematic.2 hopens.2 ?_ hincreasing]
      · cases recovered attempt window <;> rfl
      · intro round hmem
        obtain ⟨other, hother, hround⟩ := List.mem_filterMap.mp hmem
        obtain ⟨otherId, hotherId, rfl⟩ := Option.map_eq_some_iff.mp hround
        rw [receiveAll]
        rcases Collector.collect_highest_eq (recovery code) ⟨highest, []⟩
          (shards openAead window) with hsame | ⟨output, houtput, heq⟩
        · rw [hsame]
          exact hhighest _ (List.mem_filterMap.mpr ⟨other, List.mem_cons_of_mem _ hother, hround⟩)
        · have hrecovered : output ∈ (recovered attempt window).toList := hfirst ▸ houtput
          obtain ⟨id, hid, hsame⟩ := sessionId_of_recovered (Option.mem_toList.mp hrecovered)
          rw [heq, hsame]
          exact WithBot.coe_lt_coe.mpr (hlater other hother id otherId hid hotherId)

/-- Of the first run one datagram arrives, of the second none. -/
theorem displayedOver_eq_sample :
    ∃ (first second : Attempt Target.release64) (packet : Packet),
      packet ∈ datagrams first.trace ∧
      displayedOver (fun _ _ _ ciphertext => some ciphertext) copyingCode ⊥ [[packet], []] =
        (List.zipWith recovered [first, second] [[packet], []]).reduceOption := by
  obtain ⟨first, second, after, hfirst, hsecond, hkeyPath, hhistory⟩ := exists_plainHistory
  obtain ⟨packet, hpacket⟩ := hfirst.exists_datagram
  refine ⟨first, second, packet, hpacket, displayedOver_eq hkeyPath hhistory determines_copyingCode
    (List.forall_mem_cons.mpr ⟨hfirst.systematic, List.forall_mem_singleton.mpr
      hsecond.systematic⟩)
    (List.forall_mem_cons.mpr ⟨hfirst.opens, List.forall_mem_singleton.mpr hsecond.opens⟩)
    (.cons (by simpa using hpacket) (.cons (List.nil_subset _) .nil))
    fun id _ => WithBot.bot_lt_coe id⟩

/-- A lossless network behind the burst filter: the frame is displayed exactly when the
burst is not longer than the parity. -/
theorem displayed_of_burst {code : FecCode}
    (hcode : ∀ dataShards parityShards,
      ErasureCode.Determines dataShards (code dataShards parityShards))
    (hsystematic : Systematic code attempt) (hok : attempt.rest = .done (.ok ()))
    (hdrop : attempt.config.chaosDrop = 0) (hsends : Sends attempt id frame slices)
    (hopens : ∀ item ∈ encryptions attempt.trace, Opens openAead item.2)
    (hreceived : ∀ packet, packet ∈ received ↔ packet ∈ datagrams attempt.trace)
    {highest : WithBot ℕ} (hhighest : highest < id.raw.toNat) :
    displayed openAead code highest received =
      if attempt.config.chaosBurst.toNat ≤ parityCount attempt.config.parityRatio frame then
        [(id.raw.toNat, paddedFrame frame)]
      else [] := by
  obtain ⟨otherId, bytes, otherSlices, key, encrypted, final, honAir⟩ := exists_onAir (.inr hok)
  have hnodup : (datagrams attempt.trace).Nodup := honAir.nodup_headerIndex.2.of_map _
  have hcard : received.toFinset.card = (datagrams attempt.trace).length := by
    rw [← List.toFinset_card_of_nodup hnodup]
    congr 1
    ext packet
    rw [List.mem_toFinset, List.mem_toFinset, hreceived packet]
  have hpositive := dataCount_pos hsends.accepted.nonempty
  have hsubset : received ⊆ datagrams attempt.trace :=
    fun packet hmem => (hreceived packet).mp hmem
  rw [displayed_eq_arrived hcode hsystematic hsends hopens hsubset hhighest,
    card_arrived hsends hopens hsubset, hcard, length_datagrams hok hdrop hsends]
  refine if_congr ?_ rfl rfl
  omega

/-- One of the two packets is dropped, and the other one is enough. -/
theorem displayed_of_burst_sample :
    ∃ attempt : Attempt Target.release64, attempt.config.chaosBurst = 1 ∧
      displayed (fun _ _ _ ciphertext => some ciphertext) copyingCode ⊥
          (datagrams attempt.trace) =
        if attempt.config.chaosBurst.toNat ≤
            parityCount attempt.config.parityRatio sampleFrame.val then
          [(1, paddedFrame sampleFrame.val)]
        else [] := by
  let config : Config := { sampleConfig sampleKeyPath with chaosBurst := 1 }
  obtain ⟨attempt, raw, hraw, hplain, -⟩ :=
    Ready.exists_plainRun config rfl rfl ready_sampleFiles (by omega)
  obtain rfl : raw = 1 := UInt16.toNat_inj.mp hraw
  obtain ⟨slices, hsends⟩ := hplain.exists_sends
  have hdrop : attempt.config.chaosDrop = 0 := by
    rw [hplain.config_eq]
    rfl
  exact ⟨attempt, by rw [hplain.config_eq], displayed_of_burst determines_copyingCode
    hplain.systematic hplain.rest_eq hdrop hsends hplain.opens (fun packet => Iff.rfl)
    (WithBot.bot_lt_coe 1)⟩

end Run

end Fiudp.Run
