import Fiudp.Receiver.Machine
import Fiudp.Run.History
import Fiudp.Run.Wire

/-!
# From the runs to the display

Runs that share one session file, a network that loses, repeats and reorders what they
send, and a receiver that follows the specification: which frames it displays, and when.
-/

namespace Fiudp.Run

open ByteLayout Protocol Interaction Sender Session Os Receiver Attempt

variable {target : Target}

/-- The frames of the runs, padded, with their session ids. -/
def issuedFrames (attempts : List (Attempt target)) : List (ℕ × List UInt8) :=
  attempts.filterMap fun attempt => do
    let id ← attempt.sessionId
    let frame ← inputFrame attempt.trace
    return (id.raw.toNat, paddedFrame frame)

/-- The AEAD accepts only packets with a tag and a ciphertext that one of the runs has made,
and it opens them to what was encrypted. -/
def Authentic (openAead : OpenAead) (attempts : List (Attempt target))
    (received : List Packet) : Prop :=
  ∀ packet ∈ received, ∀ opened, openPacket openAead packet = some opened →
    ∃ attempt ∈ attempts, ∃ key encryption, (key, encryption) ∈ encryptions attempt.trace ∧
      SealedBy packet encryption ∧ opened.2 = encryption.buffer

/-- On the frame of the run the engine leaves the data slices as they are and makes a word
of the code. -/
def Systematic (code : FecCode) (attempt : Attempt target) : Prop :=
  ∀ frame, inputFrame attempt.trace = some frame → ∀ out,
    ReedSolomonEngine.encode attempt.crate (dataCount frame)
      (parityCount attempt.config.parityRatio frame)
      (sessionShards attempt.config.parityRatio frame) = .ok out →
    out.val ∈ code (dataCount frame) (parityCount attempt.config.parityRatio frame) ∧
      out.val.take (dataCount frame) =
        (sessionShards attempt.config.parityRatio frame).take (dataCount frame)

/-! ## The session of a run -/

section Session

variable {attempt : Attempt target} {id : SessionId} {frame : List UInt8} {slices : List Slice}

theorem Attempt.Sends.unique {otherId : SessionId} {other : List UInt8} {otherSlices : List Slice}
    (hsends : Sends attempt id frame slices) (hother : Sends attempt otherId other otherSlices) :
    id = otherId ∧ frame = other ∧ slices = otherSlices := by
  obtain rfl : id = otherId :=
    Option.some.inj (hsends.sessionId_eq.symm.trans hother.sessionId_eq)
  obtain rfl : frame = other := Option.some.inj (hsends.frame_eq.symm.trans hother.frame_eq)
  exact ⟨rfl, rfl, Except.ok.inj (hsends.slices_eq.symm.trans hother.slices_eq)⟩

/-- The data slices of a frame hold its padded form. -/
theorem flatten_take_sessionShards (ratio : ParityRatio) (frame : List UInt8) :
    ((sessionShards ratio frame).take (dataCount frame)).flatten = paddedFrame frame := by
  have hlength : (Blocks.chunksExact shardSize (paddedFrame frame)).length = dataCount frame := by
    rw [paddedFrame, Blocks.length_chunksExact_padded shardSize_pos]
    rfl
  rw [sessionShards, plainShards, List.take_append_of_le_length hlength.ge,
    List.take_of_length_le hlength.le, paddedFrame,
    Blocks.flatten_chunksExact_padded shardSize_pos]

/-- The slices of a session are a word of its code, and they hold the padded frame. -/
theorem Attempt.Sends.slices_mem_words {code : FecCode} (hsystematic : Systematic code attempt)
    (hsends : Sends attempt id frame slices) :
    slices ∈ words code (dataCount frame) (parityCount attempt.config.parityRatio frame) ∧
      (slices.take (dataCount frame)).flatten = paddedFrame frame := by
  rcases output_engineOf hsends.slices_eq with ⟨hparity, rfl⟩ | ⟨hparity, out, rfl, hencode⟩
  · refine ⟨?_, flatten_take_sessionShards _ _⟩
    rw [words, if_pos hparity]
    exact (length_sessionShards _ frame).trans (by rw [hparity, Nat.add_zero])
  · obtain ⟨hword, hdata⟩ := hsystematic frame hsends.frame_eq out hencode
    rw [words, if_neg hparity.ne', hdata]
    exact ⟨hword, flatten_take_sessionShards _ _⟩

end Session

section Runs

variable {attempts : List (Attempt target)} {openAead : OpenAead} {code : FecCode}
  {received : List Packet}

/-- Runs with increasing ids: an id tells its run. -/
theorem eq_of_sessionId (hincreasing : Increasing attempts) {left right : Attempt target}
    (hleft : left ∈ attempts) (hright : right ∈ attempts) {first second : SessionId}
    (hfirst : left.sessionId = some first) (hsecond : right.sessionId = some second)
    (heq : first.raw.toNat = second.raw.toNat) : left = right := by
  obtain ⟨i, hi, rfl⟩ := List.getElem_of_mem hleft
  obtain ⟨j, hj, rfl⟩ := List.getElem_of_mem hright
  rw [Increasing, List.pairwise_iff_getElem] at hincreasing
  rcases lt_trichotomy i j with hlt | rfl | hgt
  · exact absurd heq (hincreasing i j hi hj hlt first second hfirst hsecond).ne
  · rfl
  · exact absurd heq (hincreasing j i hj hi hgt second first hsecond hfirst).ne'

/-- The session `round` is that of one of the runs, with this layout and these slices. -/
def SessionOf (attempts : List (Attempt target)) (round : ℕ) (layout : Layout)
    (slices : List Slice) : Prop :=
  ∃ attempt ∈ attempts, ∃ id frame, Sends attempt id frame slices ∧ id.raw.toNat = round ∧
    layout = ⟨dataCount frame, parityCount attempt.config.parityRatio frame⟩

theorem SessionOf.unique (hincreasing : Increasing attempts) {round : ℕ}
    {layout otherLayout : Layout} {slices otherSlices : List Slice}
    (hsession : SessionOf attempts round layout slices)
    (hother : SessionOf attempts round otherLayout otherSlices) :
    layout = otherLayout ∧ slices = otherSlices := by
  obtain ⟨attempt, hmem, id, frame, hsends, hid, rfl⟩ := hsession
  obtain ⟨other, hotherMem, otherId, otherFrame, hotherSends, hotherId, rfl⟩ := hother
  obtain rfl : attempt = other := eq_of_sessionId hincreasing hmem hotherMem
    hsends.sessionId_eq hotherSends.sessionId_eq (hid.trans hotherId.symm)
  obtain ⟨-, rfl, rfl⟩ := hsends.unique hotherSends
  exact ⟨rfl, rfl⟩

/-- A packet that opens is a shard of the session of one of the runs. -/
theorem exists_session_of_mem (hauthentic : Authentic openAead attempts received) {shard : Shard}
    (hmem : shard ∈ shards openAead received) :
    ∃ slices, SessionOf attempts shard.round shard.layout slices ∧
      slices[shard.index]? = some shard.item := by
  obtain ⟨packet, hpacket, hshard⟩ := List.mem_filterMap.mp hmem
  cases hopened : openPacket openAead packet with
  | none =>
      rw [shardOf, hopened] at hshard
      cases hshard
  | some opened =>
      obtain ⟨attempt, hattempt, key, encryption, hencryption, hsealed, hbuffer⟩ :=
        hauthentic packet hpacket opened hopened
      obtain ⟨id, frame, slices, index, item, hsends, hitem, heq⟩ :=
        exists_of_mem_encryptions hencryption
      obtain ⟨hindex, -⟩ := List.getElem?_eq_some_iff.mp hitem
      rw [length_of_output hsends.slices_eq] at hindex
      rw [heq] at hsealed hbuffer
      have hplace := shardOf_of_sealedBy hsends.accepted.fits hindex hopened hbuffer hsealed
      rw [hshard] at hplace
      cases hplace
      exact ⟨slices, ⟨attempt, hattempt, id, frame, hsends, rfl, rfl⟩, hitem⟩

/-- The shards of authentic packets are genuine, and the value of a session is its padded
frame. -/
theorem exists_genuine (hincreasing : Increasing attempts)
    (hcode : ∀ dataShards parityShards,
      ErasureCode.Determines dataShards (code dataShards parityShards))
    (hsystematic : ∀ attempt ∈ attempts, Systematic code attempt)
    (hauthentic : Authentic openAead attempts received) :
    ∃ value : ℕ → List UInt8,
      Collector.Genuine (recovery code) value (shards openAead received) ∧
      ∀ attempt ∈ attempts, ∀ id frame slices, Sends attempt id frame slices →
        value id.raw.toNat = paddedFrame frame := by
  classical
  let value : ℕ → List UInt8 := fun round =>
    if hround : ∃ frame, ∃ attempt ∈ attempts, ∃ id slices,
        Sends attempt id frame slices ∧ id.raw.toNat = round then
      paddedFrame hround.choose
    else []
  have hvalue : ∀ attempt ∈ attempts, ∀ id frame slices, Sends attempt id frame slices →
      value id.raw.toNat = paddedFrame frame := by
    intro attempt hmem id frame slices hsends
    have hround : ∃ frame, ∃ attempt ∈ attempts, ∃ other slices,
        Sends attempt other frame slices ∧ other.raw.toNat = id.raw.toNat :=
      ⟨frame, attempt, hmem, id, slices, hsends, rfl⟩
    obtain ⟨other, hother, otherId, otherSlices, hotherSends, hid⟩ := hround.choose_spec
    obtain rfl : other = attempt := eq_of_sessionId hincreasing hother hmem
      hotherSends.sessionId_eq hsends.sessionId_eq hid
    exact (dif_pos hround).trans (by rw [(hotherSends.unique hsends).2.1])
  refine ⟨value, genuine_of_sessions hcode (SessionOf attempts) ?_ ?_ ?_ ?_, hvalue⟩
  · intro round layout word other otherWord hsession hother
    exact hsession.unique hincreasing hother
  · rintro round layout word ⟨attempt, hmem, id, frame, hsends, -, rfl⟩
    exact (hsends.slices_mem_words (hsystematic attempt hmem)).1
  · exact fun shard hmem => exists_session_of_mem hauthentic hmem
  · rintro round layout word ⟨attempt, hmem, id, frame, hsends, rfl, rfl⟩
    rw [hvalue attempt hmem id frame word hsends,
      (hsends.slices_mem_words (hsystematic attempt hmem)).2]

/-- The frames of the runs come in increasing order of their sessions. -/
theorem pairwise_issuedFrames (hincreasing : Increasing attempts) :
    (issuedFrames attempts).Pairwise fun left right => left.1 < right.1 := by
  rw [issuedFrames, List.pairwise_filterMap]
  refine hincreasing.imp fun {earlier later} hlt first hfirst second hsecond => ?_
  simp only [Option.bind_eq_bind, Option.bind_eq_some_iff] at hfirst hsecond
  obtain ⟨id, hid, frame, -, hfirst⟩ := hfirst
  obtain ⟨otherId, hotherId, otherFrame, -, hsecond⟩ := hsecond
  cases hfirst
  cases hsecond
  exact hlt id otherId hid hotherId

theorem mem_issuedFrames {attempt : Attempt target} (hmem : attempt ∈ attempts)
    {id : SessionId} {frame : List UInt8} {slices : List Slice}
    (hsends : Sends attempt id frame slices) :
    (id.raw.toNat, paddedFrame frame) ∈ issuedFrames attempts := by
  refine List.mem_filterMap.mpr ⟨attempt, hmem, ?_⟩
  rw [hsends.sessionId_eq, hsends.frame_eq]
  rfl

/-- Two lists in strictly increasing order: the one is a subsequence of the other as soon as
it is a subset of it. -/
theorem sublist_of_subset {α : Type} {left right : List (ℕ × α)}
    (hleft : left.Pairwise fun first second => first.1 < second.1)
    (hright : right.Pairwise fun first second => first.1 < second.1) (hsubset : left ⊆ right) :
    left.Sublist right := by
  let before : ℕ × α → ℕ × α → Prop := fun first second => first.1 < second.1
  have : Std.Antisymm before := ⟨fun first second hlt hgt => absurd hgt hlt.asymm⟩
  have : Std.Irrefl before := ⟨fun first => lt_irrefl first.1⟩
  exact List.sublist_of_subperm_of_pairwise
    (List.subperm_of_subset (List.Pairwise.nodup hleft) hsubset) hleft hright

/-- Every frame that is displayed is the padded frame of a run. -/
theorem displayed_subset (hincreasing : Increasing attempts)
    (hcode : ∀ dataShards parityShards,
      ErasureCode.Determines dataShards (code dataShards parityShards))
    (hsystematic : ∀ attempt ∈ attempts, Systematic code attempt)
    (hauthentic : Authentic openAead attempts received) (highest : WithBot ℕ) :
    displayed openAead code highest received ⊆ issuedFrames attempts := by
  obtain ⟨value, hgenuine, hvalue⟩ :=
    exists_genuine hincreasing hcode hsystematic hauthentic
  rintro ⟨round, result⟩ hmem
  obtain ⟨⟨before, shard, after, heq, rfl, -⟩, rfl⟩ :=
    ((Collector.collect_genuine highest hgenuine).2 round result).mp hmem
  have hshard : shard ∈ shards openAead received := by
    rw [heq]
    exact List.mem_append_right _ List.mem_cons_self
  obtain ⟨slices, ⟨attempt, hattempt, id, frame, hsends, hid, -⟩, -⟩ :=
    exists_session_of_mem hauthentic hshard
  rw [← hid, hvalue attempt hattempt id frame slices hsends]
  exact mem_issuedFrames hattempt hsends

theorem Authentic.of_mem {windows : List (List Packet)} {window : List Packet}
    (hauthentic : Authentic openAead attempts windows.flatten) (hwindow : window ∈ windows) :
    Authentic openAead attempts window :=
  fun packet hmem => hauthentic packet (List.mem_flatten.mpr ⟨window, hwindow, hmem⟩)

theorem displayedOver_subset (hincreasing : Increasing attempts)
    (hcode : ∀ dataShards parityShards,
      ErasureCode.Determines dataShards (code dataShards parityShards))
    (hsystematic : ∀ attempt ∈ attempts, Systematic code attempt)
    {windows : List (List Packet)} (hauthentic : Authentic openAead attempts windows.flatten)
    (highest : WithBot ℕ) :
    displayedOver openAead code highest windows ⊆ issuedFrames attempts := by
  induction windows generalizing highest with
  | nil => exact List.nil_subset _
  | cons window windows ih =>
      rw [displayedOver, List.append_subset]
      refine ⟨displayed_subset hincreasing hcode hsystematic
        (hauthentic.of_mem List.mem_cons_self) highest, ih (fun packet hmem => ?_) _⟩
      refine hauthentic packet ?_
      rw [List.flatten_cons]
      exact List.mem_append_right _ hmem

end Runs

/-- The ids of the runs of a history increase. -/
theorem History.increasing_of_keyPath {Node : Type} [DecidableEq Node] {locate : PathBuf → Node}
    {keyPath : PathBuf} {before after : FileContents} {attempts : List (Attempt target)}
    (hkeyPath : ∀ attempt ∈ attempts, attempt.config.keyPath = keyPath)
    (hhistory : History (NodeStep locate (locate (SessionIdStore.new keyPath).path)) before
      attempts after) : Increasing attempts := by
  have hnode : ∀ attempt ∈ attempts, locate attempt.store.path =
      locate (SessionIdStore.new keyPath).path := by
    intro attempt hmem
    rw [store, hkeyPath attempt hmem]
  exact hhistory.increasing.imp_of_mem fun hfirst hsecond hlt =>
    hlt (hnode _ hfirst) (hnode _ hsecond)

/-- Runs under one key path, each complete or killed anywhere; a network that drops, repeats,
reorders and invents packets, as long as no invented one authenticates; a receiver that is
switched off and on.  The frames on the display are a subsequence of the frames of the runs:
none is altered, shown twice or shown after a later one. -/
theorem displayed_in_order {Node : Type} [DecidableEq Node] {locate : PathBuf → Node}
    {keyPath : PathBuf} {before after : FileContents} {attempts : List (Attempt target)}
    (hkeyPath : ∀ attempt ∈ attempts, attempt.config.keyPath = keyPath)
    (hhistory : History (NodeStep locate (locate (SessionIdStore.new keyPath).path)) before
      attempts after)
    {openAead : OpenAead} {code : FecCode}
    (hcode : ∀ dataShards parityShards,
      ErasureCode.Determines dataShards (code dataShards parityShards))
    (hsystematic : ∀ attempt ∈ attempts, Systematic code attempt)
    {windows : List (List Packet)} (hauthentic : Authentic openAead attempts windows.flatten)
    (highest : WithBot ℕ) :
    (displayedOver openAead code highest windows).Sublist (issuedFrames attempts) ∧
      ∀ output ∈ displayedOver openAead code highest windows, highest < output.1 := by
  have hincreasing := History.increasing_of_keyPath hkeyPath hhistory
  obtain ⟨hdisplayed, hlater⟩ := displayedOver_increasing openAead code highest windows
  exact ⟨sublist_of_subset hdisplayed (pairwise_issuedFrames hincreasing)
    (displayedOver_subset hincreasing hcode hsystematic hauthentic highest), hlater⟩

/-! ## Two runs whose datagrams arrive out of order -/

/-- Nothing but datagrams of the runs arrives, and the AEAD opens what the runs have
encrypted. -/
theorem authentic_of_sent {attempts : List (Attempt target)} {openAead : OpenAead}
    {received : List Packet}
    (hopens : ∀ attempt ∈ attempts, ∀ item ∈ encryptions attempt.trace, Opens openAead item.2)
    (hsent : ∀ packet ∈ received, ∃ attempt ∈ attempts, packet ∈ datagrams attempt.trace) :
    Authentic openAead attempts received := by
  intro packet hpacket opened hopened
  obtain ⟨attempt, hmem, hdatagram⟩ := hsent packet hpacket
  obtain ⟨id, frame, slices, key, encrypted, final, honAir⟩ :=
    exists_onAir (.inl (List.ne_nil_of_mem hdatagram))
  obtain ⟨index, shard, item, -, -, hencryption, hcarries⟩ := honAir.carries hdatagram
  obtain ⟨sealed, hreply, htag, hbuffer⟩ := hcarries.encrypted
  refine ⟨attempt, hmem, key, _, hencryption,
    ⟨hcarries.nonce_read, hcarries.aad_eq, sealed, hreply, htag.symm, hbuffer.symm⟩, ?_⟩
  rw [openPacket_eq_some hcarries (hopens attempt hmem _ hencryption)] at hopened
  cases hopened
  exact hcarries.buffer_eq.symm

theorem opens_of_plainReply {encryption : Encryption} (hplain : PlainReply encryption) :
    Opens (fun _ _ _ ciphertext => some ciphertext) encryption := by
  intro item hitem
  cases hitem.symm.trans hplain
  rfl

/-- The copying crate makes the copying code of a frame with one data shard. -/
theorem systematic_of_copyingCrate {attempt : Attempt target} {frame : List UInt8}
    (hcrate : attempt.crate = copyingCrate) (hframe : inputFrame attempt.trace = some frame)
    (hone : dataCount frame = 1) : Systematic copyingCode attempt := by
  intro other hother out hencode
  obtain rfl : frame = other := Option.some.inj (hframe.symm.trans hother)
  have hlength := length_sessionShards attempt.config.parityRatio frame
  rw [hcrate] at hencode
  rw [hone] at hlength ⊢
  rw [encode_copyingCrate hencode]
  exact encodes_copyingCode hlength _ rfl

/-- A run that sends the one-byte frame with an AEAD that leaves the slices as they are. -/
structure PlainRun (attempt : Attempt Target.release64) (config : Config) (raw : UInt16) :
    Prop where
  crate_eq : attempt.crate = copyingCrate
  config_eq : attempt.config = config
  sessionId_eq : attempt.sessionId = some ⟨raw⟩
  frame_eq : inputFrame attempt.trace = some sampleFrame.val
  rest_eq : attempt.rest = .done (.ok ())
  plain : ∀ item ∈ encryptions attempt.trace, PlainReply item.2

section PlainRun

variable {attempt : Attempt Target.release64} {config : Config} {raw : UInt16}

theorem PlainRun.opens (hrun : PlainRun attempt config raw) :
    ∀ item ∈ encryptions attempt.trace,
      Opens (fun _ _ _ ciphertext => some ciphertext) item.2 :=
  fun item hmem => opens_of_plainReply (hrun.plain item hmem)

theorem PlainRun.systematic (hrun : PlainRun attempt config raw) :
    Systematic copyingCode attempt :=
  systematic_of_copyingCrate hrun.crate_eq hrun.frame_eq (by decide)

theorem PlainRun.exists_sends (hrun : PlainRun attempt config raw) :
    ∃ slices, Sends attempt ⟨raw⟩ sampleFrame.val slices := by
  obtain ⟨id, frame, slices, key, encrypted, final, honAir⟩ := exists_onAir (.inr hrun.rest_eq)
  obtain rfl : id = ⟨raw⟩ :=
    Option.some.inj (honAir.sends.sessionId_eq.symm.trans hrun.sessionId_eq)
  have hframe : frame.val = sampleFrame.val :=
    Option.some.inj (honAir.sends.frame_eq.symm.trans hrun.frame_eq)
  exact ⟨slices, hframe ▸ honAir.sends⟩

end PlainRun

/-- Such a run exists on every file system with a key and a counter that is not used up. -/
theorem Ready.exists_plainRun {Node : Type} [DecidableEq Node] {locate : PathBuf → Node}
    {files : Node → FileContents} (config : Config) {key : Key} {value : ℕ}
    (hinput : config.input = .stdin) (hratio : config.parityRatio = sampleRatio)
    (hready : Ready locate files config.keyPath key value) (hroom : value < 65535) :
    ∃ (attempt : Attempt Target.release64) (raw : UInt16), raw.toNat = value + 1 ∧
      PlainRun attempt config raw ∧
      Completes locate files attempt (.ok ()) (Function.update files
        (locate (SessionIdStore.new config.keyPath).path) (some (u16ToBeBytes raw).toList)) := by
  have hfits :
      dataCount sampleFrame.val + parityCount config.parityRatio sampleFrame.val ≤ 256 := by
    rw [hratio]
    decide
  obtain ⟨attempt, raw, hcrate, hconfig, hraw, hid, hframe, hcompletes, hplain⟩ :=
    exists_plain documented_copyingCrate hinput (by decide : sampleFrame.val ≠ []) hfits hready
      hroom
  exact ⟨attempt, raw, hraw, ⟨hcrate, hconfig, hid, hframe, hcompletes.rest_eq, hplain⟩,
    hcompletes⟩

/-- Two such runs, starting from a key file alone. -/
theorem exists_plainHistory :
    ∃ (first second : Attempt Target.release64) (after : FileContents),
      PlainRun first (sampleConfig sampleKeyPath) 1 ∧
      PlainRun second (sampleConfig sampleKeyPath) 2 ∧
      (∀ attempt ∈ [first, second], attempt.config.keyPath = sampleKeyPath) ∧
      History (NodeStep id (id (SessionIdStore.new sampleKeyPath).path))
        (sampleFiles (SessionIdStore.new sampleKeyPath).path) [first, second] after := by
  obtain ⟨first, one, hone, hfirst, hfirstRun⟩ :=
    Ready.exists_plainRun (sampleConfig sampleKeyPath) rfl rfl ready_sampleFiles (by omega)
  obtain ⟨second, two, htwo, hsecond, hsecondRun⟩ :=
    Ready.exists_plainRun (sampleConfig sampleKeyPath) rfl rfl (ready_sampleFiles.persist one)
      (by omega)
  obtain rfl : one = 1 := UInt16.toNat_inj.mp hone
  obtain rfl : two = 2 := UInt16.toNat_inj.mp htwo
  have hhistory : History (FileStep id) sampleFiles [first, second] _ :=
    ⟨_, hfirstRun.follows, _, hsecondRun.follows, rfl⟩
  refine ⟨first, second, _, hfirst, hsecond, ?_, hhistory.view
    (fun files => files (SessionIdStore.new sampleKeyPath).path) fun _ _ _ hstep => hstep _⟩
  simp [hfirst.config_eq, hsecond.config_eq, sampleConfig]

/-- The datagrams of the second run arrive first; those of the first run arrive after the
receiver has been switched off and on. -/
theorem displayed_in_order_sample :
    ∃ first second : Attempt Target.release64,
      issuedFrames [first, second] =
        [(1, paddedFrame sampleFrame.val), (2, paddedFrame sampleFrame.val)] ∧
      (displayedOver (fun _ _ _ ciphertext => some ciphertext) copyingCode ⊥
          [datagrams second.trace, datagrams first.trace]).Sublist
        (issuedFrames [first, second]) ∧
      ∀ output ∈ displayedOver (fun _ _ _ ciphertext => some ciphertext) copyingCode ⊥
        [datagrams second.trace, datagrams first.trace], ⊥ < (output.1 : WithBot ℕ) := by
  obtain ⟨first, second, after, hfirst, hsecond, hkeyPath, hhistory⟩ := exists_plainHistory
  have hauthentic : Authentic (fun _ _ _ ciphertext => some ciphertext) [first, second]
      [datagrams second.trace, datagrams first.trace].flatten := by
    refine authentic_of_sent ?_ fun packet hmem => ?_
    · exact List.forall_mem_cons.mpr ⟨hfirst.opens, List.forall_mem_singleton.mpr hsecond.opens⟩
    · simpa [or_comm] using hmem
  refine ⟨first, second, ?_, displayed_in_order hkeyPath hhistory determines_copyingCode ?_
    hauthentic ⊥⟩
  · simp [issuedFrames, hfirst.sessionId_eq, hfirst.frame_eq, hsecond.sessionId_eq,
      hsecond.frame_eq]
  · exact List.forall_mem_cons.mpr
      ⟨hfirst.systematic, List.forall_mem_singleton.mpr hsecond.systematic⟩

end Fiudp.Run
