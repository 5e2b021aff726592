import Fiudp.Sender.Components
import Fiudp.Sender.Observations

/-!
# The Reed-Solomon engine

`ReedSolomonEngine` over the part of the `reed-solomon-erasure` crate it calls,
and the frames a sender with this engine accepts: the code works over a field of
256 elements, the guard of `send` counts in `u16`.
-/

namespace Fiudp.Sender

open ByteLayout Protocol Interaction

variable {target : Target}

/-- `galois_8::ReedSolomon`: its constructor and its `encode`, with the texts of
their errors.  The slices `encode` writes to keep their number. -/
structure ReedSolomon where
  Encoder : Type
  new : (dataShards parityShards : ℕ) → Except String Encoder
  encode : Encoder → (shards : List Slice) →
    Except String {out : List Slice // out.length = shards.length}

/-- What the documentation of the crate says about its failures. -/
structure ReedSolomon.Documented (crate : ReedSolomon) : Prop where
  new_fails_iff : ∀ dataShards parityShards,
    (∃ message, crate.new dataShards parityShards = .error message) ↔
      dataShards = 0 ∨ parityShards = 0 ∨ 256 < dataShards + parityShards
  encode_succeeds : ∀ dataShards parityShards rse shards size,
    crate.new dataShards parityShards = .ok rse → shards.length = dataShards + parityShards →
    0 < size → (∀ shard ∈ shards, shard.length = size) →
      ∃ out, crate.encode rse shards = .ok out
  encode_keeps_lengths : ∀ rse shards out, crate.encode rse shards = .ok out →
    out.val.map List.length = shards.map List.length

/-- `ReedSolomonEngine::encode`. -/
def ReedSolomonEngine.encode (crate : ReedSolomon) (dataShards parityShards : ℕ)
    (shards : List Slice) :
    Except FiudpError {out : List Slice // out.length = shards.length} := do
  let rse ← (crate.new dataShards parityShards).mapError fun message =>
    FiudpError.fec ("failed to initialize Reed-Solomon encoder: " ++ message)
  (crate.encode rse shards).mapError fun message =>
    FiudpError.fec ("failed to generate parity shards: " ++ message)

theorem ReedSolomonEngine.encode_of_new_error {crate : ReedSolomon}
    {dataShards parityShards : ℕ} {message : String}
    (hnew : crate.new dataShards parityShards = .error message) (shards : List Slice) :
    encode crate dataShards parityShards shards =
      .error (.fec ("failed to initialize Reed-Solomon encoder: " ++ message)) := by
  rw [encode, hnew]
  rfl

theorem ReedSolomonEngine.encode_of_new_ok {crate : ReedSolomon}
    {dataShards parityShards : ℕ} {rse : crate.Encoder}
    (hnew : crate.new dataShards parityShards = .ok rse) (shards : List Slice) :
    encode crate dataShards parityShards shards =
      (crate.encode rse shards).mapError fun message =>
        FiudpError.fec ("failed to generate parity shards: " ++ message) := by
  rw [encode, hnew]
  rfl

theorem ReedSolomonEngine.encode_error {crate : ReedSolomon} {dataShards parityShards : ℕ}
    {shards : List Slice} {error : FiudpError}
    (hencode : encode crate dataShards parityShards shards = .error error) :
    ∃ message, error = .fec message := by
  cases hnew : crate.new dataShards parityShards with
  | error message =>
      rw [encode_of_new_error hnew] at hencode
      cases hencode
      exact ⟨_, rfl⟩
  | ok rse =>
      rw [encode_of_new_ok hnew] at hencode
      cases hresult : crate.encode rse shards with
      | error message =>
          rw [hresult] at hencode
          cases hencode
          exact ⟨_, rfl⟩
      | ok out =>
          rw [hresult] at hencode
          cases hencode

section Engine

variable {crate : ReedSolomon} (hcrate : crate.Documented) {dataShards parityShards : ℕ}
  {shards : List Slice}

include hcrate

theorem ReedSolomonEngine.encode_keeps_lengths
    {out : {out : List Slice // out.length = shards.length}}
    (hencode : encode crate dataShards parityShards shards = .ok out) :
    out.val.map List.length = shards.map List.length := by
  cases hnew : crate.new dataShards parityShards with
  | error message =>
      rw [encode_of_new_error hnew] at hencode
      cases hencode
  | ok rse =>
      rw [encode_of_new_ok hnew] at hencode
      cases hresult : crate.encode rse shards with
      | error message =>
          rw [hresult] at hencode
          cases hencode
      | ok result =>
          rw [hresult] at hencode
          cases hencode
          exact hcrate.encode_keeps_lengths rse shards _ hresult

/-- Past the order of the field the engine has no encoder. -/
theorem ReedSolomonEngine.encode_fails (shards : List Slice)
    (htotal : 256 < dataShards + parityShards) :
    ∃ message, encode crate dataShards parityShards shards = .error (.fec message) := by
  obtain ⟨message, hnew⟩ :=
    (hcrate.new_fails_iff dataShards parityShards).mpr (.inr (.inr htotal))
  exact ⟨_, encode_of_new_error hnew shards⟩

theorem ReedSolomonEngine.encode_succeeds (hdata : 0 < dataShards) (hparity : 0 < parityShards)
    (htotal : dataShards + parityShards ≤ 256)
    (hlength : shards.length = dataShards + parityShards)
    (hshards : ∀ shard ∈ shards, shard.length = shardSize) :
    ∃ out, encode crate dataShards parityShards shards = .ok out := by
  cases hnew : crate.new dataShards parityShards with
  | error message =>
      have hfails := (hcrate.new_fails_iff dataShards parityShards).mp ⟨message, hnew⟩
      omega
  | ok rse =>
      obtain ⟨out, hout⟩ := hcrate.encode_succeeds dataShards parityShards rse shards shardSize
        hnew hlength shardSize_pos hshards
      exact ⟨out, by rw [encode_of_new_ok hnew, hout]; rfl⟩

end Engine

/-- The reader, the encryptor and the transport never fail, and the FEC engine is
the one over `crate`. -/
def AnsweredBy (crate : ReedSolomon) : Event Call (Reply target) → Prop
  | ⟨.readAll, reply⟩ => ∃ frame, reply = .ok frame
  | ⟨.encode dataShards parityShards shards, reply⟩ =>
      reply = ReedSolomonEngine.encode crate dataShards parityShards shards
  | ⟨.encryptInPlace _ _ buffer, reply⟩ =>
      ∃ encrypted, reply = .ok encrypted ∧ encrypted.buffer.length = buffer.length
  | ⟨.sendPacket _, reply⟩ => reply = .ok ()
  | _ => True

theorem AnsweredBy.succeeds {crate : ReedSolomon} {event : Event Call (Reply target)}
    (hanswered : AnsweredBy crate event) : Succeeds event := by
  obtain ⟨call, reply⟩ := event
  cases call with
  | readAll => exact hanswered
  | encryptInPlace nonce aad buffer =>
      obtain ⟨encrypted, hreply, -⟩ := hanswered
      exact ⟨encrypted, hreply⟩
  | sendPacket packet => exact hanswered
  | encode | sleep | genRangeTo | genPercent | shuffle => trivial

theorem AnsweredBy.keepsLengths {crate : ReedSolomon} (hcrate : crate.Documented)
    {event : Event Call (Reply target)} (hanswered : AnsweredBy crate event) :
    KeepsLengths event := by
  obtain ⟨call, reply⟩ := event
  cases call with
  | encode dataShards parityShards shards =>
      rintro out rfl
      exact ReedSolomonEngine.encode_keeps_lengths hcrate hanswered.symm
  | encryptInPlace nonce aad buffer =>
      rintro encrypted rfl
      obtain ⟨_, ⟨⟩, hlength⟩ := hanswered
      exact hlength
  | readAll | sendPacket | sleep | genRangeTo | genPercent | shuffle => trivial

/-- How `send` ends with this engine, on a frame that is not empty. -/
theorem result_of_answered {crate : ReedSolomon} (hcrate : crate.Documented)
    {self : FiudpSender} {ratio : ParityRatio} {rendezvousSecs : RendezvousSecs}
    {sessionId : SessionId} {frame : List UInt8} {trace : Trace Call (Reply target)}
    {result : Result Unit} (hanswered : ∀ event ∈ trace, AnsweredBy crate event)
    (hreturns : Returns (self.send ratio rendezvousSecs sessionId).run trace result)
    (hread : frameRead trace = some frame) (hframe : frame ≠ []) :
    (65535 < dataCount frame + parityCount ratio frame ∧
        result = .error (.error (.tooManyShards (dataCount frame + parityCount ratio frame)))) ∨
      (dataCount frame + parityCount ratio frame ≤ 65535 ∧
        (parityCount ratio frame = 0 ∨ dataCount frame + parityCount ratio frame ≤ 256) ∧
        result = .ok ()) ∨
      (dataCount frame + parityCount ratio frame ≤ 65535 ∧ 0 < parityCount ratio frame ∧
        256 < dataCount frame + parityCount ratio frame ∧
        ∃ message, result = .error (.error (.fec message))) := by
  have hexit := send_exit (fun event hmem => (hanswered event hmem).keepsLengths hcrate) hreturns
  obtain ⟨bytes, hbytes, -, hcases⟩ :=
    hexit.of_succeeds fun event hmem => (hanswered event hmem).succeeds
  rw [hread] at hbytes
  cases hbytes
  have hdata := dataCount_pos hframe
  rcases hcases with ⟨hempty, -⟩ | ⟨-, hshards, hresult⟩ |
    ⟨haccepted, hparity, error, hencode, hresult⟩ | ⟨haccepted, hresult, hencode⟩
  · exact absurd hempty hframe
  · exact .inl ⟨hshards, hresult⟩
  · have hreply := hanswered _ hencode
    by_cases htotal : dataCount bytes.val + parityCount ratio bytes.val ≤ 256
    · obtain ⟨out, hout⟩ := ReedSolomonEngine.encode_succeeds hcrate hdata hparity htotal
        (length_sessionShards ratio bytes.val) fun shard => length_of_mem_sessionShards
      cases hreply.trans hout
    · obtain ⟨message, hmessage⟩ := ReedSolomonEngine.encode_fails hcrate
        (sessionShards ratio bytes.val) (Nat.not_le.mp htotal)
      cases hreply.trans hmessage
      exact .inr (.inr ⟨haccepted.fits, hparity, Nat.not_le.mp htotal, message, hresult⟩)
  · by_cases hparity : parityCount ratio bytes.val = 0
    · exact .inr (.inl ⟨haccepted.fits, .inl hparity, hresult⟩)
    · obtain ⟨out, hout⟩ := hencode (Nat.pos_of_ne_zero hparity)
      have hreply := hanswered _ hout
      by_cases htotal : dataCount bytes.val + parityCount ratio bytes.val ≤ 256
      · exact .inr (.inl ⟨haccepted.fits, .inr htotal, hresult⟩)
      · obtain ⟨message, hmessage⟩ := ReedSolomonEngine.encode_fails hcrate
          (sessionShards ratio bytes.val) (Nat.not_le.mp htotal)
        cases hreply.trans hmessage

/-- The sender accepts what the wire format allows, and reports the rest as too
many shards: what a frame of `dataShards` shards should get. -/
def AcceptsFrame (dataShards parityShards : ℕ) (result : Result Unit) : Prop :=
  (dataShards + parityShards ≤ 65535 → result = .ok ()) ∧
    (65535 < dataShards + parityShards →
      result = .error (.error (.tooManyShards (dataShards + parityShards)))) ∧
    ∀ message, result ≠ .error (.error (.fec message))

/-- With the Reed-Solomon engine a frame gets what the wire format allows exactly
if it has no parity, or fits the field, or is past the limit of the wire format. -/
theorem send_accepts_iff {crate : ReedSolomon} (hcrate : crate.Documented)
    {self : FiudpSender} {ratio : ParityRatio} {rendezvousSecs : RendezvousSecs}
    {sessionId : SessionId} {frame : List UInt8} {trace : Trace Call (Reply target)}
    {result : Result Unit} (hanswered : ∀ event ∈ trace, AnsweredBy crate event)
    (hreturns : Returns (self.send ratio rendezvousSecs sessionId).run trace result)
    (hread : frameRead trace = some frame) (hframe : frame ≠ []) :
    AcceptsFrame (dataCount frame) (parityCount ratio frame) result ↔
      parityCount ratio frame = 0 ∨ dataCount frame + parityCount ratio frame ≤ 256 ∨
        65535 < dataCount frame + parityCount ratio frame := by
  rcases result_of_answered hcrate hanswered hreturns hread hframe with
    ⟨htotal, rfl⟩ | ⟨htotal, hfield, rfl⟩ | ⟨htotal, hparity, hfield, message, rfl⟩
  · refine iff_of_true ⟨fun hfits => ?_, fun _ => rfl, fun message hfec => nomatch hfec⟩
      (.inr (.inr htotal))
    exact absurd hfits htotal.not_ge
  · refine iff_of_true ⟨fun _ => rfl, fun hover => absurd htotal hover.not_ge, nofun⟩ ?_
    exact hfield.imp_right .inl
  · refine iff_of_false (fun haccepts => haccepts.2.2 message rfl) ?_
    omega

/-! ## A crate that copies its only data shard -/

/-- With one data shard every parity shard of a systematic code is a copy. -/
def copyingCrate : ReedSolomon where
  Encoder := ℕ × ℕ
  new dataShards parityShards :=
    if dataShards = 0 ∨ parityShards = 0 ∨ 256 < dataShards + parityShards then
      .error "invalid shard counts"
    else .ok (dataShards, parityShards)
  encode _ shards :=
    if ∀ shard ∈ shards, shard.length = (shards.headD []).length then
      .ok ⟨shards.map fun _ => shards.headD [], List.length_map _⟩
    else .error "shards of different sizes"

theorem documented_copyingCrate : copyingCrate.Documented where
  new_fails_iff dataShards parityShards := by
    by_cases hinvalid : dataShards = 0 ∨ parityShards = 0 ∨ 256 < dataShards + parityShards
    · simp [copyingCrate, hinvalid]
    · simp [copyingCrate, hinvalid]
  encode_succeeds dataShards parityShards rse shards size _ _ _ hshards := by
    refine ⟨_, if_pos fun shard hmem => ?_⟩
    cases shards with
    | nil => simp at hmem
    | cons first rest =>
        exact (hshards shard hmem).trans (hshards first List.mem_cons_self).symm
  encode_keeps_lengths rse shards out hencode := by
    by_cases hsizes : ∀ shard ∈ shards, shard.length = (shards.headD []).length
    · have hout := (if_pos hsizes).symm.trans hencode
      rw [← Except.ok.inj hout, List.map_map]
      exact List.map_congr_left fun shard hmem => (hsizes shard hmem).symm
    · cases (if_neg hsizes).symm.trans hencode

theorem encode_copyingCrate {dataShards parityShards : ℕ} {shards : List Slice}
    {out : {out : List Slice // out.length = shards.length}}
    (hencode : ReedSolomonEngine.encode copyingCrate dataShards parityShards shards = .ok out) :
    out.val = shards.map fun _ => shards.headD [] := by
  cases hnew : copyingCrate.new dataShards parityShards with
  | error message =>
      rw [ReedSolomonEngine.encode_of_new_error hnew] at hencode
      cases hencode
  | ok rse =>
      rw [ReedSolomonEngine.encode_of_new_ok hnew] at hencode
      by_cases hsizes : ∀ shard ∈ shards, shard.length = (shards.headD []).length
      · simp only [copyingCrate, if_pos hsizes] at hencode
        cases hencode
        rfl
      · simp only [copyingCrate, if_neg hsizes] at hencode
        cases hencode

/-- The accepting components, with the Reed-Solomon engine. -/
def Components.withEngine (crate : ReedSolomon) (frame : ByteVec target) : Components target :=
  { Components.accepting frame id with encode := ReedSolomonEngine.encode crate }

section Engine

variable (crate : ReedSolomon) (frame : ByteVec target) (self : FiudpSender)
  (ratio : ParityRatio) (rendezvousSecs : RendezvousSecs) (sessionId : SessionId)

theorem Components.answeredBy_withEngine :
    ∀ event ∈ ((Components.withEngine crate frame).run self ratio rendezvousSecs
      sessionId).trace, AnsweredBy crate event := by
  rintro ⟨call, reply⟩ hmem
  have hreply := (Components.withEngine crate frame).reply_of_mem_run self ratio rendezvousSecs
    sessionId hmem
  cases call with
  | readAll => exact ⟨frame, hreply⟩
  | encode dataShards parityShards shards => exact hreply
  | encryptInPlace nonce aad buffer => exact ⟨_, hreply, rfl⟩
  | sendPacket packet => exact hreply
  | sleep | genRangeTo | genPercent | shuffle => trivial

theorem Components.frameRead_withEngine :
    frameRead ((Components.withEngine crate frame).run self ratio rendezvousSecs
      sessionId).trace = some frame.val := rfl

end Engine

theorem value_withEngine_sample :
    ((Components.withEngine copyingCrate sampleFrame).run sampleSender sampleRatio ⟨60⟩
      ⟨1⟩).value = .ok () := by
  rcases result_of_answered documented_copyingCrate
      (Components.answeredBy_withEngine _ _ sampleSender sampleRatio ⟨60⟩ ⟨1⟩)
      (Components.returns_run _ _ _ _ _)
      (Components.frameRead_withEngine copyingCrate sampleFrame _ _ _ _) (by decide) with
    ⟨htotal, -⟩ | ⟨-, -, hresult⟩ | ⟨-, -, hfield, -⟩
  · exact absurd htotal (by decide)
  · exact hresult
  · exact absurd hfield (by decide)

theorem send_accepts_iff_sample :
    AcceptsFrame (dataCount sampleFrame.val) (parityCount sampleRatio sampleFrame.val)
        ((Components.withEngine copyingCrate sampleFrame).run sampleSender sampleRatio
          ⟨60⟩ ⟨1⟩).value ↔
      parityCount sampleRatio sampleFrame.val = 0 ∨
        dataCount sampleFrame.val + parityCount sampleRatio sampleFrame.val ≤ 256 ∨
        65535 < dataCount sampleFrame.val + parityCount sampleRatio sampleFrame.val :=
  send_accepts_iff documented_copyingCrate
    (Components.answeredBy_withEngine _ _ _ _ _ _) (Components.returns_run _ _ _ _ _)
    (Components.frameRead_withEngine _ _ _ _ _ _) (by decide)

/-- A frame of 223 data shards, which gets 34 parity shards at the default ratio. -/
def largeFrame : ByteVec Target.release64 :=
  ⟨List.replicate 312200 0x42, by rw [List.length_replicate]; decide⟩

def defaultRatio : ParityRatio := ⟨15, by decide⟩

theorem send_rejects_largeFrame :
    dataCount largeFrame.val + parityCount defaultRatio largeFrame.val = 257 ∧
      ∃ message, ((Components.withEngine copyingCrate largeFrame).run sampleSender defaultRatio
        ⟨60⟩ ⟨1⟩).value = .error (.error (.fec message)) := by
  have hdata : dataCount largeFrame.val = 223 := by
    rw [dataCount, largeFrame, List.length_replicate]
    rfl
  have hparity : parityCount defaultRatio largeFrame.val = 34 := by
    rw [parityCount, hdata]
    rfl
  refine ⟨by rw [hdata, hparity], ?_⟩
  have hframe : largeFrame.val ≠ [] := by
    intro hempty
    rw [dataCount, hempty] at hdata
    exact absurd hdata (by decide)
  rcases result_of_answered documented_copyingCrate
      (Components.answeredBy_withEngine _ _ sampleSender defaultRatio ⟨60⟩ ⟨1⟩)
      (Components.returns_run _ _ _ _ _)
      (Components.frameRead_withEngine copyingCrate largeFrame _ _ _ _) hframe with
    ⟨htotal, -⟩ | ⟨-, hfield, -⟩ | ⟨-, -, -, hresult⟩
  · omega
  · omega
  · exact hresult

end Fiudp.Sender
