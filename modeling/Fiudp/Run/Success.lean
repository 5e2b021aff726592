import Fiudp.Run.Attempt
import Fiudp.Session.Atomicity

/-!
# Runs that succeed

On every file system with a key and a counter that is not used up there is a run
that nothing disturbs and that succeeds; once the counter is used up the
undisturbed run reports the overflow.
-/

namespace Fiudp.Run

open ByteLayout Protocol Interaction Sender Session SessionIdStore Os

variable {target : Target}

section Files

variable {Node : Type} [DecidableEq Node] {locate : PathBuf → Node}
  {files : Node → FileContents}

/-! ## The session id -/

/-- The session file can be read unless it is malformed. -/
theorem exists_read (target : Target) {store : SessionIdStore} {value : ℕ}
    (hvalue : storedValue (files (locate store.path)) = some value) :
    ∃ reply : Except ErrorKind (ByteVec target),
      FileStep locate files ⟨.read store.path, reply⟩ files ∧
      Undisturbed (⟨.read store.path, reply⟩ : Event Syscall (SysReply target)) := by
  cases hfile : files (locate store.path) with
  | none => exact ⟨.error .notFound, fileStep_notFound hfile, rfl⟩
  | some bytes =>
      have hlength : bytes.length = 2 := by
        rw [hfile, storedValue] at hvalue
        by_contra hne
        rw [if_neg hne] at hvalue
        cases hvalue
      have hfits : bytes.length ≤ target.isizeMax := by
        have hisize := target.isizeMax_eq
        omega
      exact ⟨.ok ⟨bytes, hfits⟩, fileStep_read hfile, trivial⟩

theorem follows_persistTrace (store : SessionIdStore) (raw : UInt16) :
    Follows (FileStep locate) files (persistTrace store raw : SysTrace target)
      (Function.update files (locate store.path) (some (u16ToBeBytes raw).toList)) := by
  have hhigh : FileStep locate _ (⟨.writeByte store.path 0 (highByte raw), .ok ()⟩ :
      Event Syscall (SysReply target)) _ :=
    fileStep_writeByte _ _ (Function.update_self (locate store.path) (some []) files)
  have hlow : FileStep locate _ (⟨.writeByte store.path 1 (lowByte raw), .ok ()⟩ :
      Event Syscall (SysReply target)) _ :=
    fileStep_writeByte _ _ (Function.update_self (locate store.path) (some [highByte raw]) files)
  rw [Function.update_idem] at hhigh hlow
  exact ⟨_, fileStep_openTruncate store.path, _, hhigh, _, hlow, rfl⟩

theorem undisturbed_persistTrace (store : SessionIdStore) (raw : UInt16) :
    ∀ event ∈ (persistTrace store raw : SysTrace target), Undisturbed event := by
  simp [persistTrace, Undisturbed]

/-- On a counter that is not used up there is an undisturbed call of `next`. -/
theorem exists_next (target : Target) (store : SessionIdStore) {value : ℕ}
    (hvalue : storedValue (files (locate store.path)) = some value) (hroom : value < 65535) :
    ∃ (raw : UInt16) (trace : SysTrace target), raw.toNat = value + 1 ∧
      Returns store.next.run trace (.ok ⟨raw⟩) ∧
      Follows (FileStep locate) files trace
        (Function.update files (locate store.path) (some (u16ToBeBytes raw).toList)) ∧
      ∀ event ∈ trace, Undisturbed event := by
  obtain ⟨reply, hread, hundisturbed⟩ := exists_read target hvalue
  rcases decision_of_undisturbed hvalue (hread _).1 hundisturbed with
    ⟨hfull, -⟩ | ⟨raw, hok, hraw⟩
  · omega
  · exact ⟨raw, ⟨.read store.path, reply⟩ :: persistTrace store raw, hraw,
      returns_next_of_ok hok, ⟨files, hread, follows_persistTrace store raw⟩,
      List.forall_mem_cons.mpr ⟨hundisturbed, undisturbed_persistTrace store raw⟩⟩

end Files

/-! ## The transmission -/

section Transmission

variable {crate : ReedSolomon} {key : Key} {sender : UdpPacketSender}

/-- The system can answer so that the components accept everything. -/
theorem exists_component {frame : ByteVec target} {reader : InputSource}
    (hreader : reader = .stdin) {event : Event Call (Reply target)}
    (hreply : event.reply = (Components.withEngine crate frame).reply event.call) :
    ∃ first, Returns (components crate reader ⟨key⟩ sender event.call) first event.reply ∧
      ∀ low ∈ first, ¬ low.call.IsFileCall := by
  obtain ⟨call, reply⟩ := event
  have hanswer : reply = (Components.withEngine crate frame).reply call := hreply
  subst hanswer hreader
  cases call with
  | readAll =>
      refine ⟨[⟨.readStdin, .ok frame⟩], ?_, by simp [Syscall.IsFileCall]⟩
      exact (Fallible.returns_mapErr_iff _ _ _ _).mpr
        ⟨.ok frame, (returns_perform_iff _ _ _).mpr rfl, rfl⟩
  | encode => exact ⟨[], .refl _, by simp⟩
  | encryptInPlace nonce aad buffer =>
      refine ⟨[⟨.encryptDetached key nonce aad buffer, .ok ⟨Bytes.zeroes tagSize, buffer⟩⟩], ?_,
        by simp [Syscall.IsFileCall]⟩
      exact (Fallible.returns_mapErr_iff _ _ _ _).mpr
        ⟨.ok ⟨Bytes.zeroes tagSize, buffer⟩, (returns_perform_iff _ _ _).mpr rfl, rfl⟩
  | sendPacket packet =>
      refine ⟨[⟨.sendDatagram packet, .ok packet.toList.length⟩], ?_,
        by simp [Syscall.IsFileCall]⟩
      have hsent : sender.sendResult packet (.ok packet.toList.length) = .ok () :=
        if_neg (not_not.mpr rfl)
      rw [components, UdpPacketSender.send_run]
      refine .ask _ _ _ ?_
      rw [hsent]
      exact .refl _
  | sleep | genRangeTo | genPercent | shuffle =>
      exact ⟨[⟨_, _⟩], (returns_perform_iff _ _ _).mpr rfl, by simp [Syscall.IsFileCall]⟩

/-- An accepted frame gets its first nonce. -/
theorem mem_nonces_of_ok {self : FiudpSender} {ratio : ParityRatio}
    {rendezvousSecs : RendezvousSecs} {sessionId : SessionId} {calls : Trace Call (Reply target)}
    (hkeeps : ∀ event ∈ calls, KeepsLengths event)
    (hreturns : Returns (self.send ratio rendezvousSecs sessionId).run calls (.ok ())) :
    Crypto.deriveNonce sessionId ⟨0⟩ ∈ nonces calls := by
  obtain ⟨frame, fec, draws, slices, encrypted, final, hprepared, -, rfl⟩ :=
    send_completed hkeeps hreturns
  have hslices : 0 < slices.length := by
    rw [hprepared.fecLeaves.length_eq]
    exact Nat.add_pos_left (dataCount_pos hprepared.accepted.nonempty) _
  have hencrypted : 0 < encrypted.length := hprepared.length_eq ▸ hslices
  obtain ⟨shard, shards, rfl⟩ := List.exists_cons_of_length_pos hslices
  obtain ⟨item, items, rfl⟩ := List.exists_cons_of_length_pos hencrypted
  rw [nonces_append, preparation, nonces_cons, nonces_append, encryptEvents, nonces_cons]
  simp [eventNonces, encryptEvent]

/-- A frame that the field of the code allows is accepted by these components. -/
theorem returns_withEngine (hcrate : crate.Documented) (self : FiudpSender)
    (ratio : ParityRatio) (rendezvousSecs : RendezvousSecs) (sessionId : SessionId)
    {frame : ByteVec target} (hframe : frame.val ≠ [])
    (hfits : dataCount frame.val + parityCount ratio frame.val ≤ 256) :
    Returns (self.send ratio rendezvousSecs sessionId).run
      ((Components.withEngine crate frame).run self ratio rendezvousSecs sessionId).trace
      (.ok ()) := by
  have hvalue : ((Components.withEngine crate frame).run self ratio rendezvousSecs
      sessionId).value = .ok () := by
    rcases result_of_answered hcrate
        (Components.answeredBy_withEngine crate frame self ratio rendezvousSecs sessionId)
        (Components.returns_run _ _ _ _ _) (Components.frameRead_withEngine _ _ _ _ _ _) hframe
      with ⟨htotal, -⟩ | ⟨-, -, hok⟩ | ⟨-, -, hfield, -⟩
    · omega
    · exact hok
    · omega
  rw [← hvalue]
  exact Components.returns_run _ _ _ _ _

/-- A frame that the field of the code allows can be sent. -/
theorem exists_transmission (hcrate : crate.Documented) {config : Config}
    (hinput : config.input = .stdin) (key : Key) (sessionId : SessionId) {frame : ByteVec target}
    (hframe : frame.val ≠ [])
    (hfits : dataCount frame.val + parityCount config.parityRatio frame.val ≤ 256) :
    ∃ trace : SysTrace target,
      Returns (transmitFrame crate config key sessionId).run trace (.ok ()) ∧
      (∀ event ∈ trace, ¬ event.call.IsFileCall) ∧
      (key, Crypto.deriveNonce sessionId ⟨0⟩) ∈ sealings trace := by
  let sender : UdpPacketSender := ⟨⟨config.targetIp, config.targetPort⟩⟩
  have hreturns := returns_withEngine hcrate
    ⟨config.delay, config.chaosDrop, config.chaosBurst, config.chaosShuffle⟩ config.parityRatio
    ⟨config.rendezvousSecs⟩ sessionId hframe hfits
  obtain ⟨sends, hrealizes, hquiet⟩ : ∃ sends, Realizes
      (components crate config.input ⟨key⟩ sender) _ sends ∧
        ∀ event ∈ sends, ¬ event.call.IsFileCall :=
    Realizes.exists_of_forall fun event hmem =>
      exists_component hinput (Components.reply_of_mem_run _ _ _ _ _ hmem)
  have hsend : Returns (sendWith crate config key sessionId sender).run sends (.ok ()) :=
    (returns_plug_iff _ _ _).mpr ⟨_, hrealizes, hreturns⟩
  refine ⟨_ ++ sends, (returns_try_iff _ _ _ _).mpr
      (.inr ⟨_, sends, sender, rfl, returns_socketTrace _ _, hsend⟩),
    List.forall_mem_append.mpr ⟨by simp [socketTrace, Syscall.IsFileCall], hquiet⟩, ?_⟩
  have hsealings : sealings sends = List.flatMap
      (fun event => (eventNonces event).map fun nonce => (key, nonce)) _ :=
    hrealizes.flatMap_eq _ _ sealings_components
  rw [sealings_append, hsealings, ← List.map_flatMap]
  have hnonce := mem_nonces_of_ok (fun event hmem =>
    (Components.answeredBy_withEngine crate frame _ _ _ _ event hmem).keepsLengths hcrate) hreturns
  exact List.mem_append_right _ (List.mem_map_of_mem hnonce)

end Transmission

/-! ## The run -/

/-- A run that ends with a result, without a failed file step, on a file system. -/
structure Completes {Node : Type} [DecidableEq Node] (locate : PathBuf → Node)
    (before : Node → FileContents) (attempt : Attempt target) (result : Result Unit)
    (after : Node → FileContents) : Prop where
  rest_eq : attempt.rest = .done result
  follows : Follows (FileStep locate) before attempt.trace after
  undisturbed : ∀ event ∈ attempt.trace, Undisturbed event

theorem undisturbed_of_not_fileCall {event : Event Syscall (SysReply target)}
    (hcall : ¬ event.call.IsFileCall) : Undisturbed event := by
  obtain ⟨call, reply⟩ := event
  cases call with
  | read | openTruncate | writeByte => exact absurd trivial hcall
  | _ => trivial

theorem length_key_le (target : Target) (key : Key) :
    key.toList.length ≤ target.isizeMax := by
  have hisize := target.isizeMax_eq
  rw [key.length_toList]
  omega

/-- The read of a key file that holds a key. -/
def keyEvent (path : PathBuf) (key : Key) : Event Syscall (SysReply target) :=
  ⟨.read path, .ok ⟨key.toList, length_key_le target key⟩⟩

theorem keyDecision_key (path : PathBuf) (key : Key) :
    keyDecision path (.ok ⟨key.toList, length_key_le target key⟩) = .ok key :=
  dif_pos key.length_toList

/-- A key file with a key, and beside it a session file that stands for a value. -/
structure Ready {Node : Type} (locate : PathBuf → Node) (files : Node → FileContents)
    (keyPath : PathBuf) (key : Key) (value : ℕ) : Prop where
  key_eq : files (locate keyPath) = some key.toList
  value_eq : storedValue (files (locate (SessionIdStore.new keyPath).path)) = some value
  apart : locate keyPath ≠ locate (SessionIdStore.new keyPath).path

section Ready

variable {Node : Type} [DecidableEq Node] {locate : PathBuf → Node}
  {files : Node → FileContents} {keyPath : PathBuf} {key : Key} {value : ℕ}

theorem Ready.persist (hready : Ready locate files keyPath key value) (raw : UInt16) :
    Ready locate (Function.update files (locate (SessionIdStore.new keyPath).path)
      (some (u16ToBeBytes raw).toList)) keyPath key raw.toNat where
  key_eq := by rw [Function.update_of_ne hready.apart, hready.key_eq]
  value_eq := by rw [Function.update_self, storedValue_u16ToBeBytes]
  apart := hready.apart

theorem Ready.rotate (hready : Ready locate files keyPath key value) (other : Key) :
    Ready locate (Function.update files (locate keyPath) (some other.toList)) keyPath other
      value where
  key_eq := Function.update_self _ _ _
  value_eq := by rw [Function.update_of_ne hready.apart.symm, hready.value_eq]
  apart := hready.apart

end Ready

section Run

variable {Node : Type} [DecidableEq Node] {locate : PathBuf → Node}
  {files : Node → FileContents} {crate : ReedSolomon} {config : Config} {key : Key}

/-- A run reads its key, obtains a session id and sends its frame. -/
theorem exists_success (hcrate : crate.Documented) (hinput : config.input = .stdin)
    {frame : ByteVec target} (hframe : frame.val ≠ [])
    (hfits : dataCount frame.val + parityCount config.parityRatio frame.val ≤ 256)
    {value : ℕ} (hready : Ready locate files config.keyPath key value) (hroom : value < 65535) :
    ∃ (attempt : Attempt target) (raw : UInt16), attempt.config = config ∧
      raw.toNat = value + 1 ∧ attempt.sessionId = some ⟨raw⟩ ∧
      Completes locate files attempt (.ok ()) (Function.update files
        (locate (SessionIdStore.new config.keyPath).path) (some (u16ToBeBytes raw).toList)) ∧
      (key, Crypto.deriveNonce ⟨raw⟩ ⟨0⟩) ∈ sealings attempt.trace := by
  obtain ⟨raw, session, hraw, hnext, hsession, hundisturbed⟩ :=
    exists_next target (SessionIdStore.new config.keyPath) hready.value_eq hroom
  obtain ⟨sends, hsends, hquiet, hsealing⟩ :=
    exists_transmission hcrate hinput key ⟨raw⟩ hframe hfits
  have hsteps : Steps (run crate config).run (keyEvent config.keyPath key :: (session ++ sends))
      (.done (.ok ())) := by
    rw [run_run]
    refine .ask _ _ _ ?_
    rw [keyDecision_key]
    exact (returns_try_iff _ _ _ _).mpr (.inr ⟨session, sends, ⟨raw⟩, rfl, hnext, hsends⟩)
  refine ⟨⟨crate, config, _, _, hsteps⟩, raw, rfl, hraw, ?_, ⟨rfl, ?_, ?_⟩, ?_⟩
  · rw [Attempt.sessionId_eq_some_iff, Attempt.nextResult, List.tail_cons, Attempt.store,
      Steps.resume_append hnext, Program.resume_done]
    rfl
  · exact ⟨files, fileStep_read hready.key_eq,
      (follows_append_iff _ _ _ _).mpr ⟨_, hsession, follows_of_not_fileCalls hquiet⟩⟩
  · exact List.forall_mem_cons.mpr ⟨trivial, List.forall_mem_append.mpr
      ⟨hundisturbed, fun event hmem => undisturbed_of_not_fileCall (hquiet event hmem)⟩⟩
  · change _ ∈ sealings (session ++ sends)
    rw [sealings_append]
    exact List.mem_append_right _ hsealing

/-- Once the counter is used up, a run reads its key and reports the overflow. -/
theorem exists_overflow (crate : ReedSolomon)
    (hready : Ready locate files config.keyPath key 65535) :
    ∃ attempt : Attempt target, attempt.config = config ∧ attempt.sessionId = none ∧
      Completes locate files attempt (.error (.error .sessionIdOverflow)) files := by
  obtain ⟨reply, hread, hundisturbed⟩ := exists_read target hready.value_eq
  rcases decision_of_undisturbed hready.value_eq (hread _).1 hundisturbed with
    ⟨-, hoverflow⟩ | ⟨raw, -, hraw⟩
  · have hnext := returns_next_of_error hoverflow
    have hsteps : Steps (run crate config).run
        [keyEvent config.keyPath key, ⟨.read (SessionIdStore.new config.keyPath).path, reply⟩]
        (.done (.error (.error .sessionIdOverflow))) := by
      rw [run_run]
      refine .ask _ _ _ ?_
      rw [keyDecision_key]
      exact (returns_try_iff _ _ _ _).mpr (.inl ⟨_, rfl, hnext⟩)
    refine ⟨⟨crate, config, _, _, hsteps⟩, rfl, ?_, rfl, ?_, ?_⟩
    · rw [Attempt.sessionId, Attempt.nextResult, List.tail_cons, Attempt.store, hnext.resume]
      rfl
    · exact ⟨files, fileStep_read hready.key_eq, files, hread, rfl⟩
    · exact List.forall_mem_cons.mpr ⟨trivial, List.forall_mem_singleton.mpr hundisturbed⟩
  · have hlt := raw.toNat_lt
    omega

end Run

/-! ## A sample -/

/-- A frame from stdin, to the local host. -/
def sampleConfig (keyPath : PathBuf) : Config where
  targetIp := ![127, 0, 0, 1]
  rendezvousSecs := 60
  keyPath := keyPath
  input := .stdin
  parityRatio := sampleRatio
  targetPort := 5050
  delay := ⟨500⟩
  chaosDrop := 0
  chaosBurst := 0
  chaosShuffle := false

/-- A run that sends the one-byte sample frame. -/
theorem Ready.exists_sample {Node : Type} [DecidableEq Node] {locate : PathBuf → Node}
    {files : Node → FileContents} {keyPath : PathBuf} {key : Key} {value : ℕ}
    (hready : Ready locate files keyPath key value) (hroom : value < 65535) :
    ∃ (attempt : Attempt Target.release64) (raw : UInt16),
      attempt.config = sampleConfig keyPath ∧ raw.toNat = value + 1 ∧
      attempt.sessionId = some ⟨raw⟩ ∧
      Completes locate files attempt (.ok ()) (Function.update files
        (locate (SessionIdStore.new keyPath).path) (some (u16ToBeBytes raw).toList)) ∧
      (key, Crypto.deriveNonce ⟨raw⟩ ⟨0⟩) ∈ sealings attempt.trace :=
  exists_success documented_copyingCrate rfl (by decide : sampleFrame.val ≠ [])
    (by decide : dataCount sampleFrame.val + parityCount sampleRatio sampleFrame.val ≤ 256)
    hready hroom

def sampleKey : Key := Bytes.zeroes 32

def sampleKeyPath : PathBuf := ⟨"./psk.bin".toList⟩

/-- The file of the key, and no other. -/
def sampleFiles : PathBuf → FileContents :=
  Function.update (fun _ => none) sampleKeyPath (some sampleKey.toList)

theorem sampleFiles_session : sampleFiles (SessionIdStore.new sampleKeyPath).path = none :=
  Function.update_of_ne (by decide) _ _

theorem ready_sampleFiles : Ready id sampleFiles sampleKeyPath sampleKey 0 where
  key_eq := Function.update_self _ _ _
  value_eq := by
    rw [id_eq, sampleFiles_session]
    rfl
  apart := by decide

end Fiudp.Run
