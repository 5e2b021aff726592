import Fiudp.Sender.Exits

/-!
# Where the errors of `send` come from

Past its checks `send` fails with an error of a component, with an invalid shard
size, or with a panic.
-/

namespace Fiudp.Sender

open ByteLayout Protocol Interaction

variable {target : Target}

/-- A panic, or an error of this kind. -/
def Failure.Within (kind : FiudpError → Prop) : Failure → Prop
  | .error error => kind error
  | .panic _ => True

/-- The errors the FEC engine, the encryptor and the transport answer are of this
kind. -/
def Reports (kind : FiudpError → Prop) : Event Call (Reply target) → Prop
  | ⟨.encode _ _ _, reply⟩ => ∀ error, reply = .error error → kind error
  | ⟨.encryptInPlace _ _ _, reply⟩ => ∀ error, reply = .error error → kind error
  | ⟨.sendPacket _, reply⟩ => ∀ error, reply = .error error → kind error
  | _ => True

/-- Fails with reported errors and panics only. -/
abbrev Faithful {α : Type} (kind : FiudpError → Prop) (program : Pipeline target α) : Prop :=
  FailsOnly (Reports kind) (Failure.Within kind) program

section Stages

variable {kind : FiudpError → Prop}

theorem faithful_attempt {α : Type} {program : Program Call (Reply target) (Except FiudpError α)}
    (hprogram : ∀ trace error, Returns program trace (.error error) →
      (∀ event ∈ trace, Reports kind event) → kind error) :
    Faithful kind (attempt program) := by
  intro trace failure hreturns hreports
  obtain ⟨reply, hreply, hfailure⟩ := (returns_attempt_iff _ _ _).mp hreturns
  cases reply with
  | ok value => cases hfailure
  | error error =>
      cases hfailure
      exact hprogram trace error hreply hreports

theorem faithful_encode (dataShards parityShards : ℕ) (shards : List Slice) :
    Faithful kind (encode dataShards parityShards shards : Pipeline target _) :=
  faithful_attempt fun trace error hreturns hreports => by
    rw [(returns_perform_iff _ _ _).mp hreturns] at hreports
    exact hreports _ List.mem_cons_self error rfl

theorem faithful_encryptInPlace (nonce : Nonce) (aad : Aad) (buffer : Slice) :
    Faithful kind (encryptInPlace nonce aad buffer : Pipeline target _) :=
  faithful_attempt fun trace error hreturns hreports => by
    rw [(returns_perform_iff _ _ _).mp hreturns] at hreports
    exact hreports _ List.mem_cons_self error rfl

theorem faithful_sendPacket (packet : Packet) :
    Faithful kind (sendPacket packet : Pipeline target _) :=
  faithful_attempt fun trace error hreturns hreports => by
    rw [(returns_perform_iff _ _ _).mp hreturns] at hreports
    exact hreports _ List.mem_cons_self error rfl

theorem faithful_fecStage (dataShards parityShards : ℕ) (shards : List Slice) :
    Faithful kind (fecStage dataShards parityShards shards : Pipeline target _) := by
  rw [fecStage]
  split
  · exact (faithful_encode _ _ _).bind fun out => failsOnly_pure _
  · exact failsOnly_pure _

theorem within_writePacket (hshard : ∀ actual expected, kind (.invalidShardSize actual expected))
    (out : Packet) (aad : Aad) (tag : Tag) (payload : List UInt8) (failure : Failure)
    (hfailure : (PacketBuilder.writePacket out aad tag payload).1 = .error failure) :
    Failure.Within kind failure := by
  by_cases hlength : payload.length = shardSize
  · rw [(PacketBuilder.writePacket_of_length hlength _ _ _).1] at hfailure
    cases hfailure
  · rw [PacketBuilder.writePacket_of_length_ne hlength] at hfailure
    cases hfailure
    exact hshard _ _

theorem faithful_preparePackets
    (hshard : ∀ actual expected, kind (.invalidShardSize actual expected))
    (builder : PacketBuilder) (sessionId : SessionId) (index : ℕ) (shards : List Slice) :
    Faithful kind (preparePackets builder sessionId index shards : Pipeline target _) := by
  induction shards generalizing index with
  | nil => exact failsOnly_pure _
  | cons shard shards ih =>
      rw [preparePackets]
      split
      · exact failsOnly_ofExcept fun failure hfailure => by
          cases hfailure
          trivial
      · refine (faithful_encryptInPlace _ _ _).bind fun encrypted => ?_
        exact FailsOnly.bind (failsOnly_ofExcept (within_writePacket hshard _ _ _ _)) fun _ =>
          (ih _).bind fun packets => failsOnly_pure _

theorem faithful_burstStage (chaosBurst : UInt32) (ready : List Packet) :
    Faithful kind (burstStage chaosBurst ready : Pipeline target _) := by
  rw [burstStage]
  split
  · split
    · exact failsOnly_pure _
    · refine FailsOnly.bind (failsOnly_call _) fun start => ?_
      refine FailsOnly.bind (failsOnly_ofExcept fun failure hfailure => ?_) fun stop =>
        failsOnly_ofExcept fun failure hfailure => ?_
      · rw [Target.add] at hfailure
        split_ifs at hfailure
        cases hfailure
        trivial
      · rw [drain] at hfailure
        split_ifs at hfailure
        cases hfailure
        trivial
  · exact failsOnly_pure _

theorem faithful_retainByDraw (chaosDrop : UInt8) (ready : List Packet) :
    Faithful kind (retainByDraw chaosDrop ready : Pipeline target _) := by
  induction ready with
  | nil => exact failsOnly_pure _
  | cons packet rest ih =>
      exact FailsOnly.bind (failsOnly_call _) fun draw => ih.bind fun kept => failsOnly_pure _

theorem faithful_chaos (self : FiudpSender) (ready : List Packet) :
    Faithful kind (self.chaos ready : Pipeline target _) := by
  refine (faithful_burstStage _ _).bind fun ready => FailsOnly.bind ?_ fun ready => ?_
  · rw [dropStage]
    split
    · exact faithful_retainByDraw _ _
    · exact failsOnly_pure _
  · rw [shuffleStage]
    split
    · exact FailsOnly.bind (failsOnly_call _) fun shuffled => failsOnly_pure _
    · exact failsOnly_pure _

theorem faithful_transmit (delay : Duration) (packetCount index : ℕ) (packets : List Packet) :
    Faithful kind (transmit delay packetCount index packets : Pipeline target _) := by
  induction packets generalizing index with
  | nil => exact failsOnly_pure _
  | cons packet rest ih =>
      refine (faithful_sendPacket _).bind fun _ => ?_
      split
      · exact FailsOnly.bind (failsOnly_call _) fun _ => ih _
      · exact ih _

/-- Past the checks every error of `send` is one of a component, or an invalid shard
size. -/
theorem faithful_sendShards (hshard : ∀ actual expected, kind (.invalidShardSize actual expected))
    (self : FiudpSender) (rendezvousSecs : RendezvousSecs) (sessionId : SessionId)
    (payload : List UInt8) (dataShards parityShards : ℕ) :
    Faithful kind (self.sendShards rendezvousSecs sessionId payload dataShards parityShards :
      Pipeline target _) :=
  (faithful_fecStage _ _ _).bind fun _ => (faithful_preparePackets hshard _ _ _ _).bind fun _ =>
    (faithful_chaos _ _).bind fun _ => faithful_transmit _ _ _ _

end Stages

end Fiudp.Sender
