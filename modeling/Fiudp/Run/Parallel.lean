import Fiudp.Run.Fleet
import Fiudp.Run.Reception

/-!
# Parallel runs on one display

The datagrams of runs that go on side by side are mixed on the way to one receiver.  Their ids
tell them apart, so each of them is displayed as if it had been sent alone.
-/

namespace Fiudp.Run

open Protocol Interaction Sender Session Os Receiver Attempt

variable {target : Target} {ι : Type} [Fintype ι] {fleet : Fleet ι target}

/-! ## The runs in the order of their ids -/

/-- The runs of a fleet. -/
noncomputable def Fleet.runs (fleet : Fleet ι target) : List (Attempt target) :=
  Finset.univ.toList.map fleet.process

theorem mem_runs {attempt : Attempt target} :
    attempt ∈ fleet.runs ↔ ∃ i, fleet.process i = attempt := by
  simp [Fleet.runs]

/-- Runs with different ids can be brought into the order of these. -/
theorem exists_increasing (hdistinct : Distinct fleet) :
    ∃ attempts : List (Attempt target), Increasing attempts ∧
      ∀ attempt, attempt ∈ attempts ↔ attempt ∈ fleet.runs := by
  let place : ι → ℕ := fun i => ((fleet.process i).sessionId.map fun id => id.raw.toNat).getD 0
  let before : ι → ι → Prop := fun i j => place i ≤ place j
  have : DecidableRel before := fun i j => inferInstanceAs (Decidable (place i ≤ place j))
  have : Std.Total before := ⟨fun i j => le_total (place i) (place j)⟩
  have : IsTrans ι before := ⟨fun _ _ _ hij hjk => le_trans hij hjk⟩
  let order := (Finset.univ : Finset ι).toList.insertionSort before
  have hperm : order.Perm Finset.univ.toList := List.perm_insertionSort before _
  have hsorted : order.Pairwise before := List.pairwise_insertionSort before _
  have hnodup : order.Nodup := hperm.nodup_iff.mpr (Finset.nodup_toList _)
  refine ⟨order.map fleet.process, ?_, fun attempt => ?_⟩
  · rw [Increasing, List.pairwise_map]
    refine (hsorted.and hnodup).imp fun {i j} hij first second hfirst hsecond => ?_
    have hle : place i ≤ place j := hij.1
    simp only [place, hfirst, hsecond, Option.map_some, Option.getD_some] at hle
    refine lt_of_le_of_ne hle fun heq => hdistinct.ids i j hij.2 first hfirst ?_
    rw [hsecond]
    exact congrArg (fun raw => some (SessionId.mk raw)) (UInt16.toNat_inj.mp heq).symm
  · rw [Fleet.runs]
    exact (hperm.map fleet.process).mem_iff

/-! ## What is displayed -/

section Display

variable {attempts others : List (Attempt target)} {openAead : OpenAead} {code : FecCode}
  {received : List Packet}

theorem Authentic.of_same (hsame : ∀ attempt, attempt ∈ attempts ↔ attempt ∈ others)
    (hauthentic : Authentic openAead others received) : Authentic openAead attempts received := by
  intro packet hpacket opened hopened
  obtain ⟨attempt, hmem, hrest⟩ := hauthentic packet hpacket opened hopened
  exact ⟨attempt, (hsame attempt).mpr hmem, hrest⟩

theorem displayedAt_of_same (hsame : ∀ attempt, attempt ∈ attempts ↔ attempt ∈ others)
    (id : SessionId) (frame : List UInt8) :
    DisplayedAt openAead attempts received id frame ↔
      DisplayedAt openAead others received id frame := by
  simp only [DisplayedAt, hsame]

variable [DecidableEq ι] {keyPath : PathBuf} {start : Fleet ι target} {initial : ℕ}

/-- Parallel runs under one key path, in any interleaving of their calls in which no run reads
the session file while another one stands between its read and its truncation, each of them
complete or stopped anywhere; a network that mixes, drops, repeats and invents packets, as long
as no invented one authenticates; a receiver that is switched off and on.  Whatever is on the
display is the whole frame of one of the runs, with the id of this run, and ids only grow. -/
theorem fleet_displayed (hkeyPath : ∀ i, (start.process i).config.keyPath = keyPath)
    (hstart : ∀ i, (start.process i).trace = [])
    (hinitial : storedValue start.contents = some initial)
    (hrun : Relation.ReflTransGen (FleetStep (SessionIdStore.new keyPath)) start fleet)
    (hcode : ∀ dataShards parityShards,
      ErasureCode.Determines dataShards (code dataShards parityShards))
    (hsystematic : ∀ i, Systematic code (fleet.process i))
    {windows : List (List Packet)} (hauthentic : Authentic openAead fleet.runs windows.flatten)
    (highest : WithBot ℕ) :
    (displayedOver openAead code highest windows).Pairwise
        (fun left right => left.1 < right.1) ∧
      ∀ output ∈ displayedOver openAead code highest windows, highest < output.1 ∧
        ∃ i id frame, (fleet.process i).sessionId = some id ∧
          inputFrame (fleet.process i).trace = some frame ∧
          output = (id.raw.toNat, paddedFrame frame) := by
  obtain ⟨attempts, hincreasing, hsame⟩ :=
    exists_increasing (distinct_of_run hkeyPath hstart hinitial hrun)
  have hall : ∀ attempt ∈ attempts, Systematic code attempt := by
    intro attempt hmem
    obtain ⟨i, rfl⟩ := mem_runs.mp ((hsame attempt).mp hmem)
    exact hsystematic i
  obtain ⟨hdisplayed, hlater⟩ := displayedOver_increasing openAead code highest windows
  refine ⟨hdisplayed, fun output hmem => ⟨hlater output hmem, ?_⟩⟩
  have hissued : output ∈ issuedFrames attempts :=
    displayedOver_subset hincreasing hcode hall (hauthentic.of_same hsame) highest hmem
  obtain ⟨attempt, hattempt, heq⟩ := List.mem_filterMap.mp hissued
  obtain ⟨i, rfl⟩ := mem_runs.mp ((hsame attempt).mp hattempt)
  simp only [Option.bind_eq_bind, Option.bind_eq_some_iff] at heq
  obtain ⟨id, hid, frame, hframe, heq⟩ := heq
  exact ⟨i, id, frame, hid, hframe, (Option.some.inj heq).symm⟩

/-- When the frame of one of the parallel runs is displayed: the receiver was still before its
id, enough of its shards arrive, and no run with a later id is completed first.  The other
shards that arrive in between make no difference. -/
theorem fleet_displayed_iff (hkeyPath : ∀ i, (start.process i).config.keyPath = keyPath)
    (hstart : ∀ i, (start.process i).trace = [])
    (hinitial : storedValue start.contents = some initial)
    (hrun : Relation.ReflTransGen (FleetStep (SessionIdStore.new keyPath)) start fleet)
    (hcode : ∀ dataShards parityShards,
      ErasureCode.Determines dataShards (code dataShards parityShards))
    (hsystematic : ∀ i, Systematic code (fleet.process i))
    (hauthentic : Authentic openAead fleet.runs received) {i : ι} {id : SessionId}
    {frame : List UInt8} {slices : List Slice}
    (hsends : Sends (fleet.process i) id frame slices) (highest : WithBot ℕ)
    (result : List UInt8) :
    (id.raw.toNat, result) ∈ displayed openAead code highest received ↔
      (highest < id.raw.toNat ∧ DisplayedAt openAead fleet.runs received id frame) ∧
        result = paddedFrame frame := by
  obtain ⟨attempts, hincreasing, hsame⟩ :=
    exists_increasing (distinct_of_run hkeyPath hstart hinitial hrun)
  have hall : ∀ attempt ∈ attempts, Systematic code attempt := by
    intro attempt hmem
    obtain ⟨j, rfl⟩ := mem_runs.mp ((hsame attempt).mp hmem)
    exact hsystematic j
  have hmem : fleet.process i ∈ attempts := (hsame _).mpr (mem_runs.mpr ⟨i, rfl⟩)
  rw [← displayedAt_of_same hsame]
  exact displayed_of_increasing hincreasing hcode hall (hauthentic.of_same hsame) hmem hsends
    highest result

end Display

/-! ## Two runs side by side -/

/-- Two runs whose datagrams arrive in any order, and nothing else. -/
theorem authentic_of_plainFleet {fleet : Fleet (Fin 2) Target.release64} {received : List Packet}
    (hfirst : PlainRun (fleet.process 0) (sampleConfig sampleKeyPath) 1)
    (hsecond : PlainRun (fleet.process 1) (sampleConfig sampleKeyPath) 2)
    (hreceived : ∀ packet ∈ received, ∃ i, packet ∈ datagrams (fleet.process i).trace) :
    Authentic (fun _ _ _ ciphertext => some ciphertext) fleet.runs received := by
  have hopens : ∀ i, ∀ item ∈ encryptions (fleet.process i).trace,
      Opens (fun _ _ _ ciphertext => some ciphertext) item.2 :=
    Fin.forall_fin_two.mpr ⟨hfirst.opens, hsecond.opens⟩
  apply authentic_of_sent
  · intro attempt hmem
    obtain ⟨i, rfl⟩ := mem_runs.mp hmem
    exact hopens i
  · intro packet hpacket
    obtain ⟨i, hmem⟩ := hreceived packet hpacket
    exact ⟨fleet.process i, mem_runs.mpr ⟨i, rfl⟩, hmem⟩

/-- The datagrams of the second run arrive first; those of both arrive again after the receiver
has been switched off and on. -/
theorem fleet_displayed_sample :
    ∃ fleet : Fleet (Fin 2) Target.release64,
      let first := datagrams (fleet.process 0).trace
      let second := datagrams (fleet.process 1).trace
      let shown := displayedOver (fun _ _ _ ciphertext => some ciphertext) copyingCode ⊥
        [second, first ++ second]
      first ≠ [] ∧ second ≠ [] ∧ shown.Pairwise (fun left right => left.1 < right.1) ∧
        ∀ output ∈ shown, ⊥ < (output.1 : WithBot ℕ) ∧
          ∃ i id frame, (fleet.process i).sessionId = some id ∧
            inputFrame (fleet.process i).trace = some frame ∧
            output = (id.raw.toNat, paddedFrame frame) := by
  obtain ⟨start, fleet, hkeyPath, hstart, hinitial, hrun, hfirst, hsecond⟩ := exists_plainFleet
  obtain ⟨packet, hpacket⟩ := hfirst.exists_datagram
  obtain ⟨other, hother⟩ := hsecond.exists_datagram
  have hauthentic : Authentic (fun _ _ _ ciphertext => some ciphertext) fleet.runs
      [datagrams (fleet.process 1).trace,
        datagrams (fleet.process 0).trace ++ datagrams (fleet.process 1).trace].flatten := by
    refine authentic_of_plainFleet hfirst hsecond fun packet hmem => ?_
    simp only [List.flatten_cons, List.flatten_nil, List.append_nil, List.mem_append] at hmem
    rcases hmem with hmem | hmem | hmem
    exacts [⟨1, hmem⟩, ⟨0, hmem⟩, ⟨1, hmem⟩]
  exact ⟨fleet, List.ne_nil_of_mem hpacket, List.ne_nil_of_mem hother,
    fleet_displayed hkeyPath hstart hinitial hrun determines_copyingCode
      (Fin.forall_fin_two.mpr ⟨hfirst.systematic, hsecond.systematic⟩) hauthentic ⊥⟩

/-- The frame of the first run, when the datagrams of both arrive. -/
theorem fleet_displayed_iff_sample :
    ∃ fleet : Fleet (Fin 2) Target.release64,
      let received := datagrams (fleet.process 0).trace ++ datagrams (fleet.process 1).trace
      received ≠ [] ∧ ∀ highest result,
        (1, result) ∈ displayed (fun _ _ _ ciphertext => some ciphertext) copyingCode highest
            received ↔
          (highest < ((1 : ℕ) : WithBot ℕ) ∧
            DisplayedAt (fun _ _ _ ciphertext => some ciphertext) fleet.runs received ⟨1⟩
              sampleFrame.val) ∧ result = paddedFrame sampleFrame.val := by
  obtain ⟨start, fleet, hkeyPath, hstart, hinitial, hrun, hfirst, hsecond⟩ := exists_plainFleet
  obtain ⟨packet, hpacket⟩ := hfirst.exists_datagram
  obtain ⟨slices, hsends⟩ := hfirst.exists_sends
  have hauthentic : Authentic (fun _ _ _ ciphertext => some ciphertext) fleet.runs
      (datagrams (fleet.process 0).trace ++ datagrams (fleet.process 1).trace) := by
    refine authentic_of_plainFleet hfirst hsecond fun packet hmem => ?_
    rcases List.mem_append.mp hmem with hmem | hmem
    exacts [⟨0, hmem⟩, ⟨1, hmem⟩]
  exact ⟨fleet, List.ne_nil_of_mem (List.mem_append_left _ hpacket),
    fleet_displayed_iff hkeyPath hstart hinitial hrun determines_copyingCode
      (Fin.forall_fin_two.mpr ⟨hfirst.systematic, hsecond.systematic⟩) hauthentic hsends⟩

end Fiudp.Run
