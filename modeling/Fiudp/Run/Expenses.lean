import Fiudp.Core.Budget
import Fiudp.Run.Wire

/-!
# What a run can cost

A price for every kind of call, and what a run spends at most, however it is answered and
wherever it is stopped: the number of its calls, the bytes it sends or the time it sleeps.
-/

namespace Fiudp.Run

open ByteLayout Protocol Interaction Sender Session SessionIdStore Os Fallible

variable {target : Target}

/-- A price for every kind of call. -/
structure Tariff where
  read : ℕ
  write : ℕ
  socket : ℕ
  encrypt : ℕ
  draw : ℕ
  send : ℕ
  sleep : ℕ

namespace Tariff

variable (tariff : Tariff)

def cost : Syscall → ℕ
  | .read _ => tariff.read
  | .openTruncate _ => tariff.write
  | .writeByte _ _ _ => tariff.write
  | .readStdin => tariff.read
  | .bindSocket => tariff.socket
  | .connectSocket _ => tariff.socket
  | .sendDatagram _ => tariff.send
  | .encryptDetached _ _ _ _ => tariff.encrypt
  | .sleep _ => tariff.sleep
  | .genRangeTo _ => tariff.draw
  | .genPercent => tariff.draw
  | .shuffle _ => tariff.draw

/-- What the components of a run charge for a call. -/
def charge : Call → ℕ
  | .readAll => tariff.read
  | .encode _ _ _ => 0
  | .encryptInPlace _ _ _ => tariff.encrypt
  | .sendPacket _ => tariff.send
  | .sleep _ => tariff.sleep
  | .genRangeTo _ => tariff.draw
  | .genPercent => tariff.draw
  | .shuffle _ => tariff.draw

/-- A session with this many shards. -/
def session (shards : ℕ) : ℕ :=
  shards * tariff.encrypt + (shards + 2) * tariff.draw + shards * tariff.send +
    (shards - 1) * tariff.sleep

/-- What is spent on a frame once it has been read: nothing when `send` rejects it. -/
def onFrame (ratio : ParityRatio) : Option (List UInt8) → ℕ
  | some frame =>
      if frame = [] then 0
      else if 65535 < dataCount frame + parityCount ratio frame then 0
      else tariff.session (dataCount frame + parityCount ratio frame)
  | none => 0

/-- What the calls of a trace have cost. -/
def total (trace : SysTrace target) : ℕ :=
  (trace.map fun event => tariff.cost event.call).sum

theorem total_append (first second : SysTrace target) :
    tariff.total (first ++ second) = tariff.total first + tariff.total second := by
  rw [total, List.map_append, List.sum_append]
  rfl

theorem session_mono {fewer more : ℕ} (hle : fewer ≤ more) :
    tariff.session fewer ≤ tariff.session more := by
  unfold session
  gcongr

/-- No session has more than 65535 shards. -/
theorem onFrame_le (ratio : ParityRatio) (frame : Option (List UInt8)) :
    tariff.onFrame ratio frame ≤ 65535 * tariff.encrypt + 65537 * tariff.draw +
      65535 * tariff.send + 65534 * tariff.sleep := by
  cases frame with
  | none => exact Nat.zero_le _
  | some frame =>
      rw [onFrame]
      split_ifs with hempty hcount
      · exact Nat.zero_le _
      · exact Nat.zero_le _
      · exact tariff.session_mono (Nat.le_of_not_lt hcount)

end Tariff

/-- The price of a list is that of its head and that of its tail. -/
theorem add_length_mul_le {α : Type} (item : α) (items : List α) (price : ℕ) :
    price + items.length * price ≤ (item :: items).length * price := by
  rw [List.length_cons, Nat.succ_mul, Nat.add_comm]

section Send

variable (tariff : Tariff)

/-! ## The preparation -/

theorem spends_encode (dataShards parityShards : ℕ) (shards : List Slice) :
    (encode dataShards parityShards shards : Pipeline target _).Spends tariff.charge 0
      fun _ => True :=
  (spends_mk (Program.spends_perform _)).mapErr

theorem spends_encryptInPlace (nonce : Nonce) (aad : Aad) (buffer : Slice) :
    (encryptInPlace nonce aad buffer : Pipeline target _).Spends tariff.charge tariff.encrypt
      fun _ => True :=
  (spends_mk (Program.spends_perform _)).mapErr

theorem spends_sendPacket (packet : Packet) :
    (sendPacket packet : Pipeline target _).Spends tariff.charge tariff.send fun _ => True :=
  (spends_mk (Program.spends_perform _)).mapErr

theorem spends_fecStage (dataShards parityShards : ℕ) (shards : List Slice) :
    (fecStage dataShards parityShards shards : Pipeline target _).Spends tariff.charge 0
      fun out => out.length = shards.length := by
  rw [fecStage]
  split
  · exact (spends_encode tariff dataShards parityShards shards).bind_zero
      fun out _ => spends_pure out.property
  · exact spends_pure rfl

theorem spends_preparePackets (builder : PacketBuilder) (sessionId : SessionId) (index : ℕ)
    (shards : List Slice) :
    (preparePackets builder sessionId index shards : Pipeline target _).Spends tariff.charge
      (shards.length * tariff.encrypt) fun packets => packets.length = shards.length := by
  induction shards generalizing index with
  | nil =>
      rw [preparePackets]
      exact spends_pure rfl
  | cons shard shards ih =>
      have hcons := add_length_mul_le shard shards tariff.encrypt
      rw [preparePackets]
      split
      · exact spends_throw _
      refine Spends.bind_le hcons (spends_encryptInPlace tariff _ _ _) fun encrypted _ => ?_
      generalize PacketBuilder.writePacket (Bytes.zeroes packetSize)
        (builder.buildAad ⟨UInt16.ofNat index⟩) encrypted.tag encrypted.buffer = assembled
      obtain ⟨written, packet⟩ := assembled
      cases written with
      | error failure => exact spends_throw failure
      | ok =>
          dsimp only
          rw [Fallible.ofExcept_ok_bind]
          exact (ih (index + 1)).bind_zero fun packets hlength =>
            spends_pure (congrArg Nat.succ hlength)

/-! ## The chaos filters -/

theorem length_le_of_drain {α : Type} {items kept : List α} {start stop : ℕ}
    (hkept : drain items start stop = .ok kept) : kept.length ≤ items.length := by
  rw [drain] at hkept
  split_ifs at hkept with hrange
  cases hkept
  rw [List.length_append, List.length_take, List.length_drop]
  omega

theorem spends_burstStage (chaosBurst : UInt32) (ready : List Packet) :
    (burstStage chaosBurst ready : Pipeline target _).Spends tariff.charge tariff.draw
      fun kept => kept.length ≤ ready.length := by
  rw [burstStage]
  split
  · dsimp only
    split
    · exact spends_pure le_rfl
    · have hstart : (genRangeTo (ready.length - chaosBurst.toNat) :
          Pipeline target _).Spends tariff.charge tariff.draw fun _ => True :=
        spends_call _
      refine hstart.bind_zero fun startIdx _ => ?_
      have hstop : (Fallible.ofExcept (target.add startIdx.val chaosBurst.toNat) :
          Pipeline target _).Spends tariff.charge 0 fun _ => True :=
        spends_ofExcept fun _ _ => trivial
      exact hstop.zero_bind fun stop _ =>
        spends_ofExcept fun kept hkept => length_le_of_drain hkept
  · exact spends_pure le_rfl

theorem spends_retainByDraw (chaosDrop : UInt8) (ready : List Packet) :
    (retainByDraw chaosDrop ready : Pipeline target _).Spends tariff.charge
      (ready.length * tariff.draw) fun kept => kept.length ≤ ready.length := by
  induction ready with
  | nil =>
      rw [retainByDraw]
      exact spends_pure le_rfl
  | cons packet ready ih =>
      have hcons := add_length_mul_le packet ready tariff.draw
      have hdraw : (genPercent : Pipeline target _).Spends tariff.charge tariff.draw
          fun _ => True :=
        spends_call _
      rw [retainByDraw]
      refine hdraw.bind_le hcons fun draw _ => ih.bind_zero fun kept hkept => ?_
      refine spends_pure ?_
      split
      · exact Nat.succ_le_succ hkept
      · exact hkept.trans (Nat.le_succ _)

theorem spends_dropStage (chaosDrop : UInt8) (ready : List Packet) :
    (dropStage chaosDrop ready : Pipeline target _).Spends tariff.charge
      (ready.length * tariff.draw) fun kept => kept.length ≤ ready.length := by
  rw [dropStage]
  split
  · exact spends_retainByDraw tariff chaosDrop ready
  · exact spends_pure le_rfl

theorem spends_shuffleStage (chaosShuffle : Bool) (ready : List Packet) :
    (shuffleStage chaosShuffle ready : Pipeline target _).Spends tariff.charge tariff.draw
      fun kept => kept.length ≤ ready.length := by
  rw [shuffleStage]
  split
  · have hshuffle : (shuffle ready : Pipeline target _).Spends tariff.charge tariff.draw
        fun _ => True :=
      spends_call _
    exact hshuffle.bind_zero fun shuffled _ => spends_pure shuffled.property.length_eq.le
  · exact spends_pure le_rfl

theorem spends_chaos (self : FiudpSender) (ready : List Packet) :
    (self.chaos ready : Pipeline target _).Spends tariff.charge
      ((ready.length + 2) * tariff.draw) fun kept => kept.length ≤ ready.length := by
  have hall : tariff.draw + (ready.length * tariff.draw + tariff.draw) ≤
      (ready.length + 2) * tariff.draw := by
    rw [Nat.add_mul]
    omega
  rw [FiudpSender.chaos]
  refine (spends_burstStage tariff self.chaosBurst ready).bind_le hall fun burst hburst => ?_
  have hle : burst.length * tariff.draw + tariff.draw ≤
      ready.length * tariff.draw + tariff.draw :=
    Nat.add_le_add_right (Nat.mul_le_mul_right tariff.draw hburst) tariff.draw
  exact (spends_dropStage tariff self.chaosDrop burst).bind_le hle fun kept hkept =>
    (spends_shuffleStage tariff self.chaosShuffle kept).imp le_rfl fun final hfinal =>
      hfinal.trans (hkept.trans hburst)

/-! ## The transmission -/

theorem spends_transmit (delay : Duration) (packetCount index : ℕ) (packets : List Packet)
    (hindex : index + packets.length = packetCount) :
    (transmit delay packetCount index packets : Pipeline target _).Spends tariff.charge
      (packets.length * tariff.send + (packets.length - 1) * tariff.sleep) fun _ => True := by
  induction packets generalizing index with
  | nil =>
      rw [transmit]
      exact spends_pure trivial
  | cons packet packets ih =>
      have hrest := ih (index + 1) (by rw [← hindex, List.length_cons]; omega)
      have hsleep : (Sender.sleep delay : Pipeline target _).Spends tariff.charge tariff.sleep
          fun _ => True :=
        spends_call _
      rw [transmit]
      cases packets with
      | nil =>
          have hlast : tariff.send + 0 ≤
              [packet].length * tariff.send + ([packet].length - 1) * tariff.sleep := by
            simp
          refine (spends_sendPacket tariff packet).bind_le hlast fun _ _ => ?_
          have hend : ¬ index + 1 < packetCount := hindex.ge.not_gt
          rw [if_neg hend]
          exact spends_pure trivial
      | cons next packets =>
          have hcons : tariff.send + (tariff.sleep + ((next :: packets).length * tariff.send +
              ((next :: packets).length - 1) * tariff.sleep)) ≤
              (packet :: next :: packets).length * tariff.send +
                ((packet :: next :: packets).length - 1) * tariff.sleep := by
            simp only [List.length_cons, Nat.add_sub_cancel, Nat.succ_mul]
            omega
          have hmore : index + 1 < packetCount := by
            rw [← hindex, List.length_cons, List.length_cons]
            omega
          refine (spends_sendPacket tariff packet).bind_le hcons fun _ _ => ?_
          rw [if_pos hmore]
          exact hsleep.bind fun _ _ => hrest

theorem spends_sendShards (self : FiudpSender) (rendezvousSecs : RendezvousSecs)
    (sessionId : SessionId) (payload : List UInt8) (dataShards parityShards : ℕ) :
    (self.sendShards rendezvousSecs sessionId payload dataShards parityShards :
      Pipeline target _).Spends tariff.charge
        (tariff.session (plainShards payload parityShards).length) fun _ => True := by
  generalize hcount : (plainShards payload parityShards).length = count
  have hall : 0 + (count * tariff.encrypt + ((count + 2) * tariff.draw +
      (count * tariff.send + (count - 1) * tariff.sleep))) ≤ tariff.session count := by
    rw [Tariff.session]
    omega
  rw [FiudpSender.sendShards]
  refine (spends_fecStage tariff dataShards parityShards _).bind_le hall fun shards hshards => ?_
  rw [hcount] at hshards
  subst hshards
  refine (spends_preparePackets tariff _ sessionId 0 shards).bind fun ready hready => ?_
  have hchaos : (self.chaos ready : Pipeline target _).Spends _ _ _ :=
    spends_chaos tariff self ready
  rw [hready] at hchaos
  refine hchaos.bind fun final hfinal => ?_
  refine (spends_transmit tariff self.delay final.length 0 final (Nat.zero_add _)).imp ?_
    fun _ _ => trivial
  gcongr

end Send

section Run

variable (tariff : Tariff)

/-! ## The components -/

theorem spends_fsRead (path : PathBuf) :
    (fsRead path : Fallible ErrorKind Syscall (SysReply target) _).Spends tariff.cost tariff.read
      fun _ => True :=
  spends_mk (Program.spends_perform _)

theorem spends_readInput (reader : InputSource) :
    (reader.readAll : Method target _).Spends tariff.cost tariff.read fun _ => True := by
  cases reader with
  | file path => exact (spends_fsRead tariff path).mapErr
  | stdin => exact (spends_mk (Program.spends_perform _)).mapErr

theorem spends_components (crate : ReedSolomon) (reader : InputSource)
    (encryptor : ChaChaEncryptor) (sender : UdpPacketSender) (call : Call) :
    (components crate reader encryptor sender call :
      Program Syscall (SysReply target) (Reply target call)).Spends tariff.cost
        (tariff.charge call) fun _ => True := by
  cases call with
  | readAll =>
      exact Program.Spends.imp (spends_readInput tariff reader) le_rfl fun _ _ => trivial
  | encode dataShards parityShards shards => trivial
  | encryptInPlace nonce aad buffer =>
      exact Program.Spends.imp (spends_mk (Program.spends_perform _)).mapErr le_rfl
        fun _ _ => trivial
  | sendPacket packet =>
      change (sender.send packet : Method target _).run.Spends _ _ _
      rw [UdpPacketSender.send_run]
      exact ⟨le_rfl, fun _ => trivial⟩
  | sleep delay => exact Program.spends_perform _
  | genRangeTo max => exact Program.spends_perform _
  | genPercent => exact Program.spends_perform _
  | shuffle packets => exact Program.spends_perform _

/-! ## The run -/

theorem spends_writeAll (path : PathBuf) (offset : ℕ) (contents : List UInt8) :
    (writeAll path offset contents : Fallible ErrorKind Syscall (SysReply target) _).Spends
      tariff.cost (contents.length * tariff.write) fun _ => True := by
  induction contents generalizing offset with
  | nil =>
      rw [writeAll]
      exact spends_pure trivial
  | cons byte contents ih =>
      have hcons := add_length_mul_le byte contents tariff.write
      rw [writeAll]
      exact Spends.bind_le hcons (spends_mk (Program.spends_perform _)) fun _ _ =>
        ih (offset + 1)

theorem spends_persist (store : SessionIdStore) (raw : UInt16) :
    (store.persist raw : Process target _).Spends tariff.cost (3 * tariff.write)
      fun _ => True := by
  have hbytes : tariff.write + (u16ToBeBytes raw).toList.length * tariff.write ≤
      3 * tariff.write := by
    rw [toList_u16ToBeBytes, List.length_cons, List.length_singleton]
    omega
  have hwrite : (fsWrite store.path (u16ToBeBytes raw).toList :
      Fallible ErrorKind Syscall (SysReply target) _).Spends tariff.cost (3 * tariff.write)
        fun _ => True :=
    Spends.bind_le hbytes (spends_mk (Program.spends_perform _)) fun _ _ =>
      spends_writeAll tariff store.path 0 _
  exact hwrite.mapErr.bind_zero fun _ _ => spends_pure trivial

theorem spends_next (store : SessionIdStore) :
    (store.next : Process target _).Spends tariff.cost (tariff.read + 3 * tariff.write)
      fun _ => True := by
  have hdecide : ∀ {α : Type} (result : Result α),
      (Fallible.ofExcept result : Process target α).Spends tariff.cost 0 fun _ => True :=
    fun result => spends_ofExcept fun _ _ => trivial
  rw [next]
  refine (spends_call _).bind fun reply _ => ?_
  refine (hdecide _).zero_bind fun current _ => ?_
  exact (hdecide _).zero_bind fun raw _ => spends_persist tariff store raw

theorem spends_new (targetIp : Ipv4Addr) (port : UInt16) :
    (UdpPacketSender.new targetIp port : Process target _).Spends tariff.cost
      (2 * tariff.socket) fun _ => True := by
  have hboth : tariff.socket + (tariff.socket + 0) ≤ 2 * tariff.socket := by omega
  rw [UdpPacketSender.new]
  refine Spends.bind_le hboth (spends_mk (Program.spends_perform _)).mapErr fun _ _ => ?_
  exact Spends.bind (spends_mk (Program.spends_perform _)).mapErr fun _ _ => spends_pure trivial

variable {tariff} in
/-- Until the frame has been read, only that read has been paid for. -/
theorem total_sendWith_le {crate : ReedSolomon} {config : Config} {key : Key}
    {sessionId : SessionId} {sender : UdpPacketSender} {trace : SysTrace target}
    {rest : Program Syscall (SysReply target) (Result Unit)}
    (hsteps : Steps (sendWith crate config key sessionId sender).run trace rest) :
    tariff.total trace ≤
      tariff.read + tariff.onFrame config.parityRatio (firstRead trace) := by
  have hcomponents : ∀ call, (components crate config.input ⟨key⟩ sender call :
      Program Syscall (SysReply target) (Reply target call)).Spends _ _ _ :=
    spends_components tariff crate config.input ⟨key⟩ sender
  rw [sendWith, ExceptT.run_mk, send_run] at hsteps
  rcases (steps_bind_iff _ _ _ _).mp hsteps with ⟨middle, hread, -⟩ |
    ⟨first, second, reply, rfl, hread, hrest⟩
  · exact (Program.Spends.sum_le (spends_readInput tariff config.input) hread).trans
      (Nat.le_add_right _ _)
  have hfirst := Program.Spends.sum_le (spends_readInput tariff config.input) hread
  obtain ⟨answer, rfl, rfl⟩ := (returns_inputReadAll_iff _ _ _).mp hread
  rw [Tariff.total_append]
  refine Nat.add_le_add hfirst ?_
  cases answer with
  | error kind =>
      obtain ⟨rfl, -⟩ := (steps_done_iff _ _ _).mp hrest
      exact Nat.zero_le _
  | ok frame =>
      have hframe : firstRead ([inputEvent config.input (.ok frame)] ++ second) =
          some frame.val := by
        cases config.input <;> rfl
      change Steps (Program.plug _ (ite _ _ _)) second rest at hrest
      rw [hframe, Tariff.onFrame]
      split_ifs at hrest ⊢
      · obtain ⟨rfl, -⟩ := (steps_done_iff _ _ _).mp hrest
        exact le_rfl
      · obtain ⟨rfl, -⟩ := (steps_done_iff _ _ _).mp hrest
        exact le_rfl
      · rw [← length_sessionShards]
        exact Program.Spends.sum_le
          (Program.Spends.plug hcomponents (spends_sendShards tariff _ _ _ _ _ _)) hrest

variable {tariff} in
theorem total_transmitFrame_le {crate : ReedSolomon} {config : Config} {key : Key}
    {sessionId : SessionId} {trace : SysTrace target}
    {rest : Program Syscall (SysReply target) (Result Unit)}
    (hsteps : Steps (transmitFrame crate config key sessionId).run trace rest) :
    tariff.total trace ≤ 2 * tariff.socket + tariff.read +
      tariff.onFrame config.parityRatio (inputFrame trace) := by
  have hnew : (UdpPacketSender.new config.targetIp config.targetPort :
      Process target _).Spends _ _ _ := spends_new tariff config.targetIp config.targetPort
  rcases (steps_try_iff _ _ _ _).mp hsteps with ⟨middle, hsockets, -⟩ |
    ⟨sockets, low, sender, rfl, hsockets, hlow⟩
  · exact (Program.Spends.sum_le hnew hsockets).trans (by omega)
  have hopened := Program.Spends.sum_le hnew hsockets
  have hsend : tariff.total low ≤
      tariff.read + tariff.onFrame config.parityRatio (firstRead low) := total_sendWith_le hlow
  rcases returns_new hsockets with ⟨kind, -, hresult⟩ | ⟨kind, -, hresult⟩ | ⟨rfl, -⟩
  · cases hresult
  · cases hresult
  rw [Tariff.total_append, Nat.add_assoc]
  exact Nat.add_le_add hopened hsend

/-- However a run is answered and wherever it is stopped, and whatever its calls cost: it
reads three files at most, writes one of two bytes, opens one socket and spends the rest on the
shards of the frame it has read, one encryption, one draw, one datagram and one pause for each,
with two draws more and one pause less. -/
theorem run_expenses (tariff : Tariff) (attempt : Attempt target) :
    tariff.total attempt.trace ≤ 3 * tariff.read + 3 * tariff.write + 2 * tariff.socket +
        tariff.onFrame attempt.config.parityRatio (inputFrame attempt.trace) ∧
      tariff.onFrame attempt.config.parityRatio (inputFrame attempt.trace) ≤
        65535 * tariff.encrypt + 65537 * tariff.draw + 65535 * tariff.send +
          65534 * tariff.sleep := by
  refine ⟨?_, tariff.onFrame_le _ _⟩
  have hnext : (attempt.store.next : Process target _).Spends _ _ _ :=
    spends_next tariff attempt.store
  rcases steps_run attempt.steps with ⟨htrace, -⟩ | ⟨reply, tail, htrace, hcases⟩
  · rw [htrace]
    exact Nat.zero_le _
  have hkey : tariff.total attempt.trace = tariff.read + tariff.total tail := by
    rw [htrace]
    rfl
  rw [hkey]
  rcases hcases with ⟨failure, -, rfl, -⟩ | ⟨key, -, ⟨middle, hmiddle, -⟩ |
    ⟨first, second, id, rfl, hfirst, hsecond⟩⟩
  · change tariff.read + 0 ≤ _
    omega
  · have htail : tariff.total tail ≤ tariff.read + 3 * tariff.write :=
      Program.Spends.sum_le hnext hmiddle
    omega
  · have hfiles : ∀ event ∈ (⟨.read attempt.config.keyPath, reply⟩ :: first : SysTrace target),
        event.call.IsFileCall :=
      List.forall_mem_cons.mpr ⟨trivial, fun event hmem => isFileCall_of_fileCall
        ((hfirst.calls_allowed (next_callsOnly _)).1 event hmem)⟩
    obtain ⟨-, -, hframe⟩ := observe_of_fileCalls hfiles second
    have hsession : tariff.total first ≤ tariff.read + 3 * tariff.write :=
      Program.Spends.sum_le hnext hfirst
    have htransmission : tariff.total second ≤ 2 * tariff.socket + tariff.read +
        tariff.onFrame attempt.config.parityRatio (inputFrame second) :=
      total_transmitFrame_le hsecond
    rw [htrace, ← List.cons_append, hframe, Tariff.total_append]
    omega

end Run

end Fiudp.Run
