import Fiudp.Sender.Exits

/-!
# The nonces of a session

Whatever its components answer, a call of `send` encrypts under the nonces of its
session's shards, in order and each once.
-/

namespace Fiudp.Sender

open ByteLayout Protocol Interaction

variable {target : Target}

/-- The nonce of a call of the encryptor. -/
def eventNonces : Event Call (Reply target) → List Nonce
  | ⟨.encryptInPlace nonce _ _, _⟩ => [nonce]
  | _ => []

/-- The nonces passed to the encryptor, in order. -/
def nonces (trace : Trace Call (Reply target)) : List Nonce := trace.flatMap eventNonces

/-- The nonces of `count` consecutive shards, from position `index` on. -/
def shardNonces (sessionId : SessionId) (index count : ℕ) : List Nonce :=
  (List.range' index count).map fun position =>
    Crypto.deriveNonce sessionId ⟨UInt16.ofNat position⟩

theorem shardNonces_succ (sessionId : SessionId) (index count : ℕ) :
    shardNonces sessionId index (count + 1) =
      Crypto.deriveNonce sessionId ⟨UInt16.ofNat index⟩ ::
        shardNonces sessionId (index + 1) count := by
  rw [shardNonces, List.range'_succ, List.map_cons]
  rfl

/-- Positions that fit in a `u16` have nonces of their own. -/
theorem nodup_shardNonces (sessionId : SessionId) {index count : ℕ}
    (hfits : index + count ≤ 65536) : (shardNonces sessionId index count).Nodup := by
  apply List.Nodup.map_on
  · intro left hleft right hright heq
    obtain ⟨-, hindex⟩ := Crypto.deriveNonce_injective heq
    have hraw := congrArg (fun shardIndex : ShardIndex => shardIndex.raw.toNat) hindex
    rw [List.mem_range'_1] at hleft hright
    simp only [UInt16.toNat_ofNat'] at hraw
    rwa [Nat.mod_eq_of_lt (by omega), Nat.mod_eq_of_lt (by omega)] at hraw
  · exact List.nodup_range'

@[simp]
theorem nonces_nil : nonces ([] : Trace Call (Reply target)) = [] := rfl

@[simp]
theorem nonces_cons (event : Event Call (Reply target)) (trace : Trace Call (Reply target)) :
    nonces (event :: trace) = eventNonces event ++ nonces trace := rfl

@[simp]
theorem nonces_append (first second : Trace Call (Reply target)) :
    nonces (first ++ second) = nonces first ++ nonces second :=
  List.flatMap_append

/-! ## The stages of `send` -/

theorem nonces_of_draws {trace : Trace Call (Reply target)}
    (hdraws : ∀ event ∈ trace, event.call.IsDraw) : nonces trace = [] := by
  rw [nonces, List.flatMap_eq_nil_iff]
  rintro ⟨call, reply⟩ hmem
  cases call with
  | encryptInPlace nonce aad buffer => exact (hdraws _ hmem).elim
  | _ => rfl

theorem nonces_sendEvents (delay : Duration) (packetCount index : ℕ) (packets : List Packet) :
    nonces (sendEvents delay packetCount index packets : Trace Call (Reply target)) = [] := by
  induction packets generalizing index with
  | nil => rfl
  | cons packet rest ih =>
      rw [sendEvents, List.cons_append, nonces_cons, nonces_append, ih]
      split <;> rfl

/-- The encryption loop stops anywhere, or has encrypted every shard. -/
theorem nonces_preparePackets {builder : PacketBuilder} {sessionId : SessionId} {index : ℕ}
    {shards : List Slice} {trace : Trace Call (Reply target)} {result : Result (List Packet)}
    (hreturns : Returns (preparePackets builder sessionId index shards).run trace result) :
    (∃ count ≤ shards.length, nonces trace = shardNonces sessionId index count) ∧
      ∀ packets, result = .ok packets → packets.length = shards.length := by
  induction shards generalizing index trace result with
  | nil =>
      obtain ⟨rfl, rfl⟩ := (returns_done_iff _ _ _).mp hreturns
      exact ⟨⟨0, le_rfl, rfl⟩, fun packets hok => by cases hok; rfl⟩
  | cons shard shards ih =>
      rw [preparePackets] at hreturns
      split at hreturns
      · obtain ⟨rfl, rfl⟩ := (returns_done_iff _ _ _).mp hreturns
        exact ⟨⟨0, Nat.zero_le _, rfl⟩, fun _ hok => by cases hok⟩
      · rcases (returns_try_iff _ _ _ _).mp hreturns with ⟨failure, rfl, hencrypt⟩ |
          ⟨first, second, encrypted, rfl, hencrypt, hrest⟩
        · obtain ⟨reply, rfl, -⟩ := (returns_encryptInPlace_iff _ _ _ _ _).mp hencrypt
          exact ⟨⟨1, by simp, rfl⟩, fun _ hok => by cases hok⟩
        · obtain ⟨reply, rfl, -⟩ := (returns_encryptInPlace_iff _ _ _ _ _).mp hencrypt
          generalize PacketBuilder.writePacket (Bytes.zeroes packetSize)
            (builder.buildAad ⟨UInt16.ofNat index⟩) encrypted.tag encrypted.buffer =
              assembled at hrest
          obtain ⟨written, packet⟩ := assembled
          cases written with
          | error failure =>
              obtain ⟨rfl, rfl⟩ := (returns_done_iff _ _ _).mp hrest
              exact ⟨⟨1, by simp, rfl⟩, fun _ hok => by cases hok⟩
          | ok =>
              obtain ⟨later, hlater, rfl⟩ := (returns_map_iff _ _ _ _).mp hrest
              obtain ⟨⟨count, hcount, hnonces⟩, hlength⟩ := ih hlater
              refine ⟨⟨count + 1, Nat.succ_le_succ hcount, ?_⟩, ?_⟩
              · rw [List.singleton_append, nonces_cons, hnonces, shardNonces_succ]
                rfl
              · intro packets hok
                cases later with
                | error failure => cases hok
                | ok rest =>
                    cases hok
                    rw [List.length_cons, List.length_cons, hlength rest rfl]

section Session

variable {self : FiudpSender} {ratio : ParityRatio} {rendezvousSecs : RendezvousSecs}
  {sessionId : SessionId}

/-- The filters and the transmission loop do not encrypt. -/
theorem nonces_transmission {ready : List Packet} (hlength : ready.length ≤ target.isizeMax)
    {trace : Trace Call (Reply target)} {result : Result Unit}
    (hreturns : Returns (do
      let final ← self.chaos ready
      transmit self.delay final.length 0 final : Pipeline target Unit).run trace result) :
    nonces trace = [] := by
  rcases (returns_try_iff _ _ _ _).mp hreturns with ⟨failure, -, hchaos⟩ |
    ⟨draws, sends, final, rfl, hchaos, hsends⟩
  · obtain ⟨-, -, -, -, -, hdraws, -⟩ := returns_chaos _ _ hlength hchaos
    exact nonces_of_draws hdraws
  · obtain ⟨-, -, -, -, -, hdraws, -⟩ := returns_chaos _ _ hlength hchaos
    rw [nonces_append, nonces_of_draws hdraws, List.nil_append]
    rcases returns_transmit _ _ _ _ hsends with ⟨rfl, -⟩ | ⟨sent, packet, error, -, rfl, -⟩
    · exact nonces_sendEvents _ _ _ _
    · rw [nonces_append, nonces_sendEvents]
      rfl

theorem nonces_fecStage {frame : List UInt8} {trace : Trace Call (Reply target)}
    {result : Result (List Slice)}
    (hreturns : Returns (fecStage (dataCount frame) (parityCount ratio frame)
      (sessionShards ratio frame)).run trace result) :
    nonces trace = [] ∧ ∀ slices, result = .ok slices →
      slices.length = dataCount frame + parityCount ratio frame := by
  rcases returns_fecStage _ _ _ hreturns with ⟨-, rfl, rfl⟩ | ⟨-, reply, rfl, rfl⟩
  · refine ⟨rfl, fun slices hok => ?_⟩
    cases hok
    exact length_sessionShards ratio frame
  · refine ⟨rfl, fun slices hok => ?_⟩
    cases reply with
    | error error => cases hok
    | ok out =>
        cases hok
        rw [out.property, length_sessionShards]

theorem nonces_sendShards {frame : List UInt8} (haccepted : Accepted ratio frame)
    {trace : Trace Call (Reply target)} {result : Result Unit}
    (hreturns : Returns (self.sendShards rendezvousSecs sessionId (paddedFrame frame)
      (dataCount frame) (parityCount ratio frame)).run trace result) :
    ∃ count ≤ dataCount frame + parityCount ratio frame,
      nonces trace = shardNonces sessionId 0 count := by
  rcases (returns_try_iff _ _ _ _).mp hreturns with ⟨failure, -, hfec⟩ |
    ⟨first, rest, slices, rfl, hfec, hrest⟩
  · exact ⟨0, Nat.zero_le _, (nonces_fecStage hfec).1⟩
  obtain ⟨hquiet, hslices⟩ := nonces_fecStage hfec
  have hlength := hslices slices rfl
  rw [nonces_append, hquiet, List.nil_append]
  rcases (returns_try_iff _ _ _ _).mp hrest with ⟨failure, -, hprepare⟩ |
    ⟨prepared, later, ready, rfl, hprepare, hlater⟩
  · obtain ⟨⟨count, hcount, hnonces⟩, -⟩ := nonces_preparePackets hprepare
    exact ⟨count, hcount.trans hlength.le, hnonces⟩
  · obtain ⟨⟨count, hcount, hnonces⟩, hready⟩ := nonces_preparePackets hprepare
    have hfew : ready.length ≤ target.isizeMax := by
      have hisize := target.isizeMax_eq
      have hfits := haccepted.fits
      rw [hready ready rfl]
      omega
    rw [nonces_append, nonces_transmission hfew hlater, List.append_nil]
    exact ⟨count, hcount.trans hlength.le, hnonces⟩

/-- The nonces of a call of `send` are those of the first shards of its session, and
only an accepted frame has any. -/
theorem nonces_of_frameRead {trace : Trace Call (Reply target)} {result : Result Unit}
    (hreturns : Returns (self.send ratio rendezvousSecs sessionId).run trace result) :
    nonces trace = [] ∨ ∃ frame count, frameRead trace = some frame ∧ Accepted ratio frame ∧
      count ≤ dataCount frame + parityCount ratio frame ∧
      nonces trace = shardNonces sessionId 0 count := by
  rcases returns_send hreturns with ⟨error, rfl, -⟩ | ⟨frame, rest, rfl, hcases⟩
  · exact .inl rfl
  rcases hcases with ⟨-, rfl, -⟩ | ⟨-, -, rfl, -⟩ | ⟨haccepted, hrest⟩
  · exact .inl rfl
  · exact .inl rfl
  · obtain ⟨count, hcount, hnonces⟩ := nonces_sendShards haccepted hrest
    exact .inr ⟨frame.val, count, rfl, haccepted, hcount, hnonces⟩

/-- Every nonce of a call of `send` belongs to a shard of the session, and none is
used twice. -/
theorem nonces_send {trace : Trace Call (Reply target)} {result : Result Unit}
    (hreturns : Returns (self.send ratio rendezvousSecs sessionId).run trace result) :
    ∃ count ≤ 65535, nonces trace = shardNonces sessionId 0 count := by
  rcases nonces_of_frameRead hreturns with hnone | ⟨frame, count, -, haccepted, hcount, hnonces⟩
  · exact ⟨0, Nat.zero_le _, hnone⟩
  · exact ⟨count, hcount.trans haccepted.fits, hnonces⟩

end Session

end Fiudp.Sender
