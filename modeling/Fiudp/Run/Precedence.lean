import Fiudp.Run.Reception

/-!
# What is on the wire has been on the disk

A run encrypts and sends only under a session id that its session file already holds, so
whatever kills it, no later run uses that id again.
-/

namespace Fiudp.Run

open ByteLayout Protocol Interaction Sender Session SessionIdStore Os Attempt

variable {target : Target}

/-! ## The session file at a call -/

theorem not_isFileCall_of_use {event : Event Syscall (SysReply target)}
    (huse : eventEncryptions event ≠ [] ∨ eventDatagrams event ≠ []) :
    ¬ event.call.IsFileCall := by
  obtain ⟨call, reply⟩ := event
  cases call with
  | read | openTruncate | writeByte =>
      exact absurd huse (not_or.mpr ⟨not_not.mpr rfl, not_not.mpr rfl⟩)
  | _ => exact id

namespace Attempt

variable {attempt : Attempt target} {first last : SysTrace target}
  {event : Event Syscall (SysReply target)}

/-- A call that is not on files belongs to the transmission. -/
theorem Course.transmission_of_not_fileCall (course : Course attempt)
    (hsplit : attempt.trace = first ++ event :: last) (hcall : ¬ event.call.IsFileCall) :
    ∃ sent, first = course.opening ++ (course.session ++ sent) ∧
      course.transmission = sent ++ event :: last := by
  have hfiles : ∀ other ∈ course.opening ++ course.session, other.call.IsFileCall := by
    refine List.forall_mem_append.mpr ⟨fun other hmem => ?_, fun other hmem => ?_⟩
    · rw [course.opening_reads other hmem]
      trivial
    · exact isFileCall_of_fileCall
        ((course.session_steps.calls_allowed (next_callsOnly _)).1 other hmem)
  rw [course.trace_eq, ← List.append_assoc] at hsplit
  rcases List.append_eq_append_iff.mp hsplit with ⟨sent, hfirst, hrest⟩ | ⟨missing, hmissing, hrest⟩
  · exact ⟨sent, by rw [hfirst, List.append_assoc], hrest⟩
  · cases missing with
    | nil =>
        rw [List.append_nil] at hmissing
        exact ⟨[], by rw [List.append_nil, hmissing], by rw [hrest]; rfl⟩
    | cons other missing =>
        cases hrest
        refine absurd (hfiles event ?_) hcall
        rw [hmissing]
        exact List.mem_append_right _ List.mem_cons_self

/-- Past its call of `next` a run has a session id, and its session file holds it. -/
theorem Course.persisted {Node : Type} [DecidableEq Node] {locate : PathBuf → Node}
    {before middle : FileContents} (course : Course attempt) {sent : SysTrace target}
    (hsent : course.transmission = sent ++ event :: last)
    (hfollows : Follows (NodeStep locate (locate attempt.store.path)) before
      (course.opening ++ (course.session ++ sent)) middle) :
    ∃ id, attempt.sessionId = some id ∧ middle = some (u16ToBeBytes id.raw).toList := by
  obtain ⟨opened, hopening, hrest⟩ := (follows_append_iff _ _ _ _).mp hfollows
  obtain ⟨stored, hsession, hsending⟩ := (follows_append_iff _ _ _ _).mp hrest
  have hopened : opened = before := follows_of_not_writes hopening fun other hmem hwrites => by
    rw [course.opening_reads other hmem] at hwrites
    exact hwrites
  have hmiddle : middle = stored := follows_of_not_writes hsending fun other hmem hwrites =>
    course.transmission_reads other (hsent ▸ List.mem_append_left _ hmem) hwrites.isWrite
  subst hopened hmiddle
  rcases course.sealed with hnone | ⟨key, id, hdone, -⟩
  · rw [hnone] at hsent
    cases sent <;> cases hsent
  · rcases next_effect course.session_steps hsession with
      ⟨-, hnone⟩ | ⟨value, raw, left, -, -, -, rfl, hid⟩
    · exact absurd hdone (hnone id)
    · obtain ⟨rfl, rfl⟩ := hid id hdone
      exact ⟨⟨raw⟩, course.sessionId_eq_some_iff.mpr hdone, rfl⟩

end Attempt

/-! ## The first four bytes of a datagram -/

/-- The bytes of a datagram that make its nonce: session id and shard index. -/
def nonceBytes (packet : Packet) : List UInt8 := slice packet.toList 0 4

theorem slice_nonceBytes (packet : Packet) {start length : ℕ} (hfits : start + length ≤ 4) :
    slice (nonceBytes packet) start length = slice packet.toList start length := by
  rw [nonceBytes, slice, slice, slice, List.drop_zero, List.drop_take, List.take_take,
    min_eq_left (by omega)]

/-- Datagrams with the same first four bytes have the same session id and shard index. -/
theorem headerIndex_of_nonceBytes {left right : Packet}
    (heq : nonceBytes left = nonceBytes right) :
    (Header.read left.toList).sessionId = (Header.read right.toList).sessionId ∧
      headerIndex left = headerIndex right := by
  have hsession : slice left.toList 0 2 = slice right.toList 0 2 := by
    rw [← slice_nonceBytes left (by omega), heq, slice_nonceBytes right (by omega)]
  have hindex : slice left.toList 2 2 = slice right.toList 2 2 := by
    rw [← slice_nonceBytes left (by omega), heq, slice_nonceBytes right (by omega)]
  constructor
  · exact congrArg (fun bytes => (⟨u16FromBeBytes bytes⟩ : SessionId)) hsession
  · exact congrArg (fun bytes => (u16FromBeBytes bytes).toNat) hindex

section Header

variable {sessionId : SessionId} {rendezvousSecs : RendezvousSecs}
  {dataShards parityShards index : ℕ} {plaintext : Slice} {encryption : Encryption}
  {packet : Packet}

theorem slice_of_carries (hcarries : CarriesShard sessionId rendezvousSecs dataShards
      parityShards index plaintext encryption packet) :
    slice packet.toList 0 2 = (u16ToBeBytes sessionId.raw).toList := by
  have hnonce := congrArg (List.take 2) (hcarries.nonce_eq.symm.trans hcarries.nonce_read)
  have hlength : sessionId.toBeBytes.toList.length = 2 := sessionId.toBeBytes.length_toList
  have hbytes : (nonceBytes packet).length = 4 :=
    length_slice _ (by rw [packet.length_toList]; decide)
  rw [List.append_assoc, List.take_left' hlength, List.take_append_of_le_length (by
    change 2 ≤ (nonceBytes packet).length
    omega)] at hnonce
  rw [← slice_nonceBytes packet (by omega)]
  exact hnonce.symm

theorem slice_deriveNonce (sessionId : SessionId) (shardIndex : ShardIndex) :
    slice (Crypto.deriveNonce sessionId shardIndex).toList 0 2 =
      (u16ToBeBytes sessionId.raw).toList := by
  have hlength : sessionId.toBeBytes.toList.length = 2 := sessionId.toBeBytes.length_toList
  rw [Crypto.toList_deriveNonce, List.append_assoc]
  exact List.take_left' hlength

end Header

/-! ## The session file comes first -/

/-- Whenever a run encrypts or sends, its session file holds exactly the two bytes with
which the nonce or the datagram begins. -/
theorem persisted_before_use {Node : Type} [DecidableEq Node] {locate : PathBuf → Node}
    {attempt : Attempt target} {before middle : FileContents} {first last : SysTrace target}
    {event : Event Syscall (SysReply target)}
    (hsplit : attempt.trace = first ++ event :: last)
    (hfollows : Follows (NodeStep locate (locate attempt.store.path)) before first middle) :
    (∀ item ∈ eventEncryptions event, middle = some (slice item.2.nonce.toList 0 2)) ∧
      ∀ packet ∈ eventDatagrams event, middle = some (slice packet.toList 0 2) := by
  have hpersisted : eventEncryptions event ≠ [] ∨ eventDatagrams event ≠ [] →
      ∃ id, attempt.sessionId = some id ∧ middle = some (u16ToBeBytes id.raw).toList := by
    intro huse
    obtain ⟨course⟩ := attempt.course
    obtain ⟨sent, rfl, hsent⟩ :=
      course.transmission_of_not_fileCall hsplit (not_isFileCall_of_use huse)
    exact course.persisted hsent hfollows
  constructor
  · intro item hitem
    obtain ⟨id, hid, hmiddle⟩ := hpersisted (.inl (List.ne_nil_of_mem hitem))
    have hmem : (item.1, item.2) ∈ encryptions attempt.trace := by
      rw [hsplit]
      exact List.mem_flatMap.mpr
        ⟨event, List.mem_append_right _ List.mem_cons_self, hitem⟩
    obtain ⟨other, frame, slices, index, shard, hsends, -, heq⟩ :=
      exists_of_mem_encryptions hmem
    cases hid.symm.trans hsends.sessionId_eq
    rw [hmiddle, heq, encryptionOf, slice_deriveNonce]
  · intro packet hpacket
    obtain ⟨id, hid, hmiddle⟩ := hpersisted (.inr (List.ne_nil_of_mem hpacket))
    have hmem : packet ∈ datagrams attempt.trace := by
      rw [hsplit]
      exact List.mem_flatMap.mpr
        ⟨event, List.mem_append_right _ List.mem_cons_self, hpacket⟩
    obtain ⟨other, frame, slices, key, encrypted, final, honAir⟩ :=
      exists_onAir (.inl (List.ne_nil_of_mem hmem))
    obtain ⟨index, shard, item, -, -, -, hcarries⟩ := honAir.carries hmem
    cases hid.symm.trans honAir.sends.sessionId_eq
    rw [hmiddle, slice_of_carries hcarries]

/-- At the datagram of a run from a key file alone. -/
theorem persisted_before_use_sample :
    ∃ (attempt : Attempt Target.release64) (first last : SysTrace Target.release64)
      (event : Event Syscall (SysReply Target.release64)) (middle : FileContents),
      attempt.trace = first ++ event :: last ∧ eventDatagrams event ≠ [] ∧
      (∀ item ∈ eventEncryptions event, middle = some (slice item.2.nonce.toList 0 2)) ∧
      ∀ packet ∈ eventDatagrams event, middle = some (slice packet.toList 0 2) := by
  obtain ⟨attempt, raw, hraw, hplain, hrun⟩ :=
    Ready.exists_plainRun (sampleConfig sampleKeyPath) rfl rfl ready_sampleFiles (by omega)
  obtain ⟨packet, hpacket⟩ := hplain.exists_datagram
  obtain ⟨event, hevent, hmem⟩ := List.mem_flatMap.mp hpacket
  obtain ⟨first, last, hsplit⟩ := List.append_of_mem hevent
  have hfollows := follows_node hrun.follows (SessionIdStore.new sampleKeyPath).path
  rw [hsplit] at hfollows
  obtain ⟨middle, hfirst, -⟩ := (follows_append_iff _ _ _ _).mp hfollows
  have hstore : attempt.store.path = (SessionIdStore.new sampleKeyPath).path := by
    rw [store, hplain.config_eq]
    rfl
  rw [← hstore] at hfirst
  exact ⟨attempt, first, last, event, middle, hsplit, List.ne_nil_of_mem hmem,
    persisted_before_use hsplit hfirst⟩

/-! ## No datagram twice -/

theorem nodup_nonceBytes (attempt : Attempt target) :
    ((datagrams attempt.trace).map nonceBytes).Nodup := by
  by_cases hnone : datagrams attempt.trace = []
  · rw [hnone]
    exact List.nodup_nil
  · obtain ⟨id, frame, slices, key, encrypted, final, honAir⟩ := exists_onAir (.inl hnone)
    have hdistinct := honAir.nodup_headerIndex.2
    rw [List.nodup_iff_pairwise_ne, List.pairwise_map] at hdistinct ⊢
    exact hdistinct.imp fun hne heq => hne (headerIndex_of_nonceBytes heq).2

/-- The session id in a datagram is that of its run. -/
theorem sessionId_of_mem_datagrams {attempt : Attempt target} {packet : Packet}
    (hmem : packet ∈ datagrams attempt.trace) :
    attempt.sessionId = some (Header.read packet.toList).sessionId := by
  obtain ⟨id, frame, slices, key, encrypted, final, honAir⟩ :=
    exists_onAir (.inl (List.ne_nil_of_mem hmem))
  obtain ⟨index, shard, item, -, -, -, hcarries⟩ := honAir.carries hmem
  rw [honAir.sends.sessionId_eq, hcarries.sessionId_eq]

/-- Of all the datagrams that the runs under one key path have ever sent, whatever has
happened to the runs, no two have the same nonce. -/
theorem history_datagrams {Node : Type} [DecidableEq Node] {locate : PathBuf → Node}
    {keyPath : PathBuf} {before after : FileContents} {attempts : List (Attempt target)}
    (hkeyPath : ∀ attempt ∈ attempts, attempt.config.keyPath = keyPath)
    (hhistory : History (NodeStep locate (locate (SessionIdStore.new keyPath).path)) before
      attempts after) :
    ((attempts.flatMap fun attempt => datagrams attempt.trace).map nonceBytes).Nodup := by
  have hincreasing := History.increasing_of_keyPath hkeyPath hhistory
  rw [List.map_flatMap, List.nodup_flatMap]
  refine ⟨fun attempt _ => nodup_nonceBytes attempt, hincreasing.imp ?_⟩
  intro earlier later hlt bytes hfirst hsecond
  obtain ⟨left, hleft, rfl⟩ := List.mem_map.mp hfirst
  obtain ⟨right, hright, heq⟩ := List.mem_map.mp hsecond
  have hids := hlt _ _ (sessionId_of_mem_datagrams hleft) (sessionId_of_mem_datagrams hright)
  rw [(headerIndex_of_nonceBytes heq).1] at hids
  exact lt_irrefl _ hids

theorem history_datagrams_sample :
    ∃ first second : Attempt Target.release64, datagrams first.trace ≠ [] ∧
      datagrams second.trace ≠ [] ∧
      (([first, second].flatMap fun attempt => datagrams attempt.trace).map nonceBytes).Nodup := by
  obtain ⟨first, second, after, hfirst, hsecond, hkeyPath, hhistory⟩ := exists_plainHistory
  obtain ⟨one, hone⟩ := hfirst.exists_datagram
  obtain ⟨two, htwo⟩ := hsecond.exists_datagram
  exact ⟨first, second, List.ne_nil_of_mem hone, List.ne_nil_of_mem htwo,
    history_datagrams hkeyPath hhistory⟩

end Fiudp.Run
