import Fiudp.Run.Program
import Fiudp.Sender.Nonces
import Fiudp.Session.Effects

/-!
# The stages of a run

What each stage of `run` makes of the answers it gets, which of them change files,
and which keys and nonces the last one encrypts under.
-/

namespace Fiudp.Run

open ByteLayout Protocol Interaction Sender Session Os

variable {target : Target}

instance (call : Syscall) : Nonempty (SysReply target call) := by
  cases call with
  | read | openTruncate | writeByte | readStdin | bindSocket | connectSocket | sendDatagram =>
      exact ⟨.error .notFound⟩
  | encryptDetached => exact ⟨.error ""⟩
  | sleep => exact ⟨()⟩
  | genRangeTo max => exact ⟨(0 : Fin (max + 1))⟩
  | genPercent => exact ⟨(0 : Fin 100)⟩
  | shuffle packets => exact ⟨⟨packets, .refl _⟩⟩

/-! ## The key -/

/-- What `read_key` makes of the answer of its read. -/
def keyDecision (path : PathBuf) : Except ErrorKind (ByteVec target) → Result Key
  | .ok bytes =>
      if hlength : bytes.val.length = 32 then .ok ⟨bytes.val, hlength⟩
      else .error (.error (.invalidKeyLength bytes.val.length))
  | .error kind => .error (.error (.io (.readKeyFile path) kind))

theorem readKey_run (path : PathBuf) :
    (readKey path : Process target Key).run =
      .ask (.read path) fun reply => .done (keyDecision path reply) := by
  change Program.ask _ _ = Program.ask _ _
  congr 1
  funext reply
  cases reply with
  | error kind => rfl
  | ok bytes =>
      rw [keyDecision]
      by_cases hlength : bytes.val.length = 32
      · rw [dif_pos hlength]
        exact congrArg ExceptT.run (dif_pos hlength)
      · rw [dif_neg hlength]
        exact congrArg ExceptT.run (dif_neg hlength)

/-! ## What the components do to files and nonces -/

/-- What `UdpPacketSender::send` makes of the answer of the socket. -/
def UdpPacketSender.sendResult (self : UdpPacketSender) (packet : Packet) :
    Except ErrorKind ℕ → Except FiudpError Unit
  | .ok sent =>
      if sent ≠ packet.toList.length then .error (.shortSend sent packet.toList.length)
      else .ok ()
  | .error kind => .error (.io (.sendPacket self.target) kind)

theorem UdpPacketSender.send_run (self : UdpPacketSender) (packet : Packet) :
    (self.send packet : Method target Unit).run =
      .ask (.sendDatagram packet) fun reply => .done (self.sendResult packet reply) := by
  change Program.ask _ _ = Program.ask _ _
  congr 1
  funext reply
  cases reply with
  | error kind => rfl
  | ok sent =>
      rw [sendResult]
      by_cases hshort : sent ≠ packet.toList.length
      · rw [if_pos hshort]
        exact congrArg ExceptT.run (if_pos hshort)
      · rw [if_neg hshort]
        exact congrArg ExceptT.run (if_neg hshort)

/-- The key and the nonce of a call of the AEAD. -/
def eventSealings : Event Syscall (SysReply target) → List (Key × Nonce)
  | ⟨.encryptDetached key nonce _ _, _⟩ => [(key, nonce)]
  | _ => []

/-- The keys and nonces passed to the AEAD, in order. -/
def sealings (trace : SysTrace target) : List (Key × Nonce) := trace.flatMap eventSealings

theorem sealings_append (first second : SysTrace target) :
    sealings (first ++ second) = sealings first ++ sealings second :=
  List.flatMap_append

section Components

variable {crate : ReedSolomon} {reader : InputSource} {encryptor : ChaChaEncryptor}
  {sender : UdpPacketSender}

/-- Only the encryptor reaches the AEAD, with its key. -/
theorem sealings_components (call : Call) (first : SysTrace target) (reply : Reply target call)
    (hreturns : Returns (components crate reader encryptor sender call) first reply) :
    first.flatMap eventSealings =
      (eventNonces ⟨call, reply⟩).map fun nonce => (encryptor.key, nonce) := by
  cases call with
  | readAll =>
      cases reader with
      | file path =>
          obtain ⟨answer, hread, -⟩ := (Fallible.returns_mapErr_iff _ _ _ _).mp hreturns
          rw [(returns_fsRead_iff _ _ _).mp hread]
          rfl
      | stdin =>
          obtain ⟨answer, hread, -⟩ := (Fallible.returns_mapErr_iff _ _ _ _).mp hreturns
          rw [(returns_perform_iff _ _ _).mp hread]
          rfl
  | encode =>
      obtain ⟨rfl, -⟩ := (returns_done_iff _ _ _).mp hreturns
      rfl
  | encryptInPlace =>
      obtain ⟨answer, hseal, -⟩ := (Fallible.returns_mapErr_iff _ _ _ _).mp hreturns
      rw [(returns_perform_iff _ _ _).mp hseal]
      rfl
  | sendPacket packet =>
      rw [components, UdpPacketSender.send_run] at hreturns
      obtain ⟨answer, tail, rfl, hdone⟩ := (returns_ask_iff _ _ _ _).mp hreturns
      obtain ⟨rfl, -⟩ := (returns_done_iff _ _ _).mp hdone
      rfl
  | sleep | genRangeTo | genPercent | shuffle =>
      rw [(returns_perform_iff _ _ _).mp hreturns]
      rfl

theorem callsOnly_components (call : Call) :
    (components crate reader encryptor sender call : Program Syscall (SysReply target) _).CallsOnly
      fun call => ¬ call.IsWrite := by
  cases call with
  | readAll =>
      cases reader <;> exact ⟨id, fun _ => trivial⟩
  | encode => trivial
  | encryptInPlace => exact ⟨id, fun _ => trivial⟩
  | sendPacket packet =>
      rw [components, UdpPacketSender.send_run]
      exact ⟨id, fun _ => trivial⟩
  | sleep | genRangeTo | genPercent | shuffle => exact ⟨id, fun _ => trivial⟩

end Components

section Transmit

variable {crate : ReedSolomon} {config : Config} {key : Key} {sessionId : SessionId}

theorem new_run (targetIp : Ipv4Addr) (port : UInt16) :
    (UdpPacketSender.new targetIp port : Process target UdpPacketSender).run =
      .ask .bindSocket fun
        | .error kind => .done (.error (.error (.io .bindSocket kind)))
        | .ok () => .ask (.connectSocket ⟨targetIp, port⟩) fun
          | .error kind => .done (.error (.error (.io (.connectSocket ⟨targetIp, port⟩) kind)))
          | .ok () => .done (.ok ⟨⟨targetIp, port⟩⟩) := by
  change Program.ask _ _ = Program.ask _ _
  congr 1
  funext reply
  cases reply with
  | error kind => rfl
  | ok =>
      change Program.ask _ _ = Program.ask _ _
      congr 1
      funext reply
      cases reply <;> rfl

/-- The calls that set up the socket. -/
def socketTrace (targetIp : Ipv4Addr) (port : UInt16) : SysTrace target :=
  [⟨.bindSocket, .ok ()⟩, ⟨.connectSocket ⟨targetIp, port⟩, .ok ()⟩]

theorem returns_socketTrace (targetIp : Ipv4Addr) (port : UInt16) :
    Returns (UdpPacketSender.new targetIp port : Process target UdpPacketSender).run
      (socketTrace targetIp port) (.ok ⟨⟨targetIp, port⟩⟩) := by
  rw [new_run]
  exact .ask _ _ _ (.ask _ _ _ (.refl _))

/-- The socket is bound, then connected, and the first failure is the result. -/
theorem returns_new {targetIp : Ipv4Addr} {port : UInt16} {trace : SysTrace target}
    {result : Result UdpPacketSender}
    (hreturns : Returns (UdpPacketSender.new targetIp port).run trace result) :
    (∃ kind, trace = [⟨.bindSocket, .error kind⟩] ∧
        result = .error (.error (.io .bindSocket kind))) ∨
      (∃ kind, trace =
          [⟨.bindSocket, .ok ()⟩, ⟨.connectSocket ⟨targetIp, port⟩, .error kind⟩] ∧
        result = .error (.error (.io (.connectSocket ⟨targetIp, port⟩) kind))) ∨
      (trace = socketTrace targetIp port ∧ result = .ok ⟨⟨targetIp, port⟩⟩) := by
  rw [new_run] at hreturns
  obtain ⟨bound, tail, rfl, htail⟩ := (returns_ask_iff _ _ _ _).mp hreturns
  cases bound with
  | error kind =>
      obtain ⟨rfl, rfl⟩ := (returns_done_iff _ _ _).mp htail
      exact .inl ⟨kind, rfl, rfl⟩
  | ok =>
      obtain ⟨connected, tail, rfl, hdone⟩ := (returns_ask_iff _ _ _ _).mp htail
      cases connected with
      | error kind =>
          obtain ⟨rfl, rfl⟩ := (returns_done_iff _ _ _).mp hdone
          exact .inr (.inl ⟨kind, rfl, rfl⟩)
      | ok =>
          obtain ⟨rfl, rfl⟩ := (returns_done_iff _ _ _).mp hdone
          exact .inr (.inr ⟨rfl, rfl⟩)

theorem callsOnly_transmitFrame :
    (transmitFrame crate config key sessionId : Process target Unit).run.CallsOnly
      fun call => ¬ call.IsWrite := by
  have hnew : (UdpPacketSender.new config.targetIp config.targetPort :
      Process target UdpPacketSender).run.CallsOnly fun call => ¬ call.IsWrite := by
    rw [new_run]
    refine ⟨id, fun bound => ?_⟩
    cases bound with
    | error kind => trivial
    | ok => exact ⟨id, fun connected => by cases connected <;> trivial⟩
  exact Fallible.callsOnly_bind hnew fun sender => Program.CallsOnly.plug _ callsOnly_components

theorem sealings_new {targetIp : Ipv4Addr} {port : UInt16} {trace : SysTrace target}
    {result : Result UdpPacketSender}
    (hreturns : Returns (UdpPacketSender.new targetIp port).run trace result) :
    sealings trace = [] := by
  rcases returns_new hreturns with ⟨kind, rfl, -⟩ | ⟨kind, rfl, -⟩ | ⟨rfl, -⟩ <;> rfl

/-- However far the transmission gets, it has used the nonces of the first shards of
its session, under the key it was given. -/
theorem sealings_transmitFrame {trace : SysTrace target}
    {rest : Program Syscall (SysReply target) (Result Unit)}
    (hsteps : Steps (transmitFrame crate config key sessionId).run trace rest) :
    ∃ count ≤ 65535,
      sealings trace <+: (shardNonces sessionId 0 count).map fun nonce => (key, nonce) := by
  obtain ⟨extra, result, hreturns⟩ := hsteps.exists_returns
  have hleading : sealings trace <+: sealings (trace ++ extra) := by
    rw [sealings_append]
    exact List.prefix_append _ _
  rcases (returns_try_iff _ _ _ _).mp hreturns with ⟨failure, -, hnew⟩ |
    ⟨first, second, sender, hsplit, hnew, hsend⟩
  · rw [sealings_new hnew] at hleading
    exact ⟨0, Nat.zero_le _, hleading⟩
  · obtain ⟨calls, hrealizes, hcalls⟩ := (returns_plug_iff _ _ _).mp hsend
    obtain ⟨count, hcount, hnonces⟩ := nonces_send hcalls
    have hsealings : sealings second =
        calls.flatMap fun event => (eventNonces event).map fun nonce => (key, nonce) :=
      hrealizes.flatMap_eq _ _ sealings_components
    rw [hsplit, sealings_append, sealings_new hnew, List.nil_append, hsealings,
      ← List.map_flatMap] at hleading
    refine ⟨count, hcount, ?_⟩
    rw [← hnonces]
    exact hleading

end Transmit

/-! ## The run -/

section Run

variable {crate : ReedSolomon} {config : Config}

theorem run_run :
    (run crate config : Process target Unit).run =
      .ask (.read config.keyPath) fun reply =>
        match keyDecision config.keyPath reply with
        | .ok key =>
            ((SessionIdStore.new config.keyPath).next >>= transmitFrame crate config key).run
        | .error failure => .done (.error failure) := by
  rw [run, ExceptT.run_bind, FileKeySource.loadKey, readKey_run]
  change Program.ask _ _ = Program.ask _ _
  congr 1
  funext reply
  change (Program.done (keyDecision config.keyPath reply)).bind _ = _
  cases keyDecision config.keyPath reply <;> rfl

/-- A run that has been started is before the read of the key, has been refused by
it, is somewhere in the call of `next`, or has got a session id and is transmitting. -/
theorem steps_run {trace : SysTrace target}
    {rest : Program Syscall (SysReply target) (Result Unit)}
    (hsteps : Steps (run crate config).run trace rest) :
    (trace = [] ∧ rest = (run crate config).run) ∨
      ∃ reply tail, trace = ⟨.read config.keyPath, reply⟩ :: tail ∧
        ((∃ failure, keyDecision config.keyPath reply = .error failure ∧ tail = [] ∧
            rest = .done (.error failure)) ∨
          ∃ key, keyDecision config.keyPath reply = .ok key ∧
            ((∃ middle : Process target SessionId,
                Steps (SessionIdStore.new config.keyPath).next.run tail middle.run ∧
                rest = (middle >>= transmitFrame crate config key).run) ∨
              ∃ first second id, tail = first ++ second ∧
                Returns (SessionIdStore.new config.keyPath).next.run first (.ok id) ∧
                Steps (transmitFrame crate config key id).run second rest)) := by
  rw [run_run] at hsteps ⊢
  rcases (steps_ask_iff _ _ _ _).mp hsteps with hstart | ⟨reply, tail, rfl, htail⟩
  · exact .inl hstart
  · refine .inr ⟨reply, tail, rfl, ?_⟩
    cases hkey : keyDecision config.keyPath reply with
    | error failure =>
        rw [hkey] at htail
        obtain ⟨rfl, rfl⟩ := (steps_done_iff _ _ _).mp htail
        exact .inl ⟨failure, rfl, rfl, rfl⟩
    | ok key =>
        rw [hkey] at htail
        exact .inr ⟨key, rfl, (steps_try_iff _ _ _ _).mp htail⟩

/-- The ways a run ends. -/
theorem returns_run {trace : SysTrace target} {result : Result Unit}
    (hreturns : Returns (run crate config).run trace result) :
    ∃ reply tail, trace = ⟨.read config.keyPath, reply⟩ :: tail ∧
      ((∃ failure, keyDecision config.keyPath reply = .error failure ∧ tail = [] ∧
          result = .error failure) ∨
        ∃ key, keyDecision config.keyPath reply = .ok key ∧
          ((∃ failure, result = .error failure ∧
              Returns (SessionIdStore.new config.keyPath).next.run tail (.error failure)) ∨
            ∃ first second id, tail = first ++ second ∧
              Returns (SessionIdStore.new config.keyPath).next.run first (.ok id) ∧
              Returns (transmitFrame crate config key id).run second result)) := by
  rw [run_run] at hreturns
  obtain ⟨reply, tail, rfl, htail⟩ := (returns_ask_iff _ _ _ _).mp hreturns
  refine ⟨reply, tail, rfl, ?_⟩
  cases hkey : keyDecision config.keyPath reply with
  | error failure =>
      rw [hkey] at htail
      obtain ⟨rfl, rfl⟩ := (returns_done_iff _ _ _).mp htail
      exact .inl ⟨failure, rfl, rfl, rfl⟩
  | ok key =>
      rw [hkey] at htail
      exact .inr ⟨key, rfl, (returns_try_iff _ _ _ _).mp htail⟩

end Run

end Fiudp.Run
