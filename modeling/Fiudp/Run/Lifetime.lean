import Fiudp.Run.Footprint
import Fiudp.Run.Precedence

/-!
# The lifetime of a key

How much a key can be used before its counter is used up, and in which states of the session
file nothing can be sent any more.
-/

namespace Fiudp.Run

open ByteLayout Protocol Interaction Sender Session SessionIdStore Os Attempt

variable {target : Target}

/-! ## Usage -/

theorem length_sealings_le (attempt : Attempt target) :
    (sealings attempt.trace).length ≤ attempt.sessionId.toList.length * 65535 := by
  rcases attempt.sealings_leading with hnone | ⟨key, id, hid, count, hcount, hleading⟩
  · rw [hnone]
    exact Nat.zero_le _
  · have hlength := hleading.length_le
    rw [List.length_map, shardNonces, List.length_map, List.length_range'] at hlength
    rw [hid, Option.toList_some, List.length_singleton]
    omega

section Node

variable {Node : Type} [DecidableEq Node] {locate : PathBuf → Node} {node : Node}
  {keyPath : PathBuf} {before after : FileContents} {attempts : List (Attempt target)}

/-- A run that obtains an id leaves fewer to be obtained. -/
theorem Attempt.rank_lt {attempt : Attempt target} (hnode : locate attempt.store.path = node)
    (hfollows : Follows (NodeStep locate node) before attempt.trace after) :
    attempt.sessionId.toList.length + (65535 - rank after) ≤ 65535 - rank before := by
  obtain ⟨hgrows, hids⟩ := Attempt.rank_le hfollows
  cases hid : attempt.sessionId with
  | none =>
      rw [Option.toList_none, List.length_nil]
      omega
  | some id =>
      obtain ⟨hlow, hhigh⟩ := hids hnode id hid
      have hlt := id.raw.toNat_lt
      rw [Option.toList_some, List.length_singleton]
      omega

/-- Runs that share a session file, each complete or killed anywhere: together they call the
AEAD at most 65535 times for every value the counter has left. -/
theorem history_usage (hnode : ∀ attempt ∈ attempts, locate attempt.store.path = node)
    (hhistory : History (NodeStep locate node) before attempts after) :
    (attempts.flatMap fun attempt => sealings attempt.trace).length ≤
      (65535 - rank before) * 65535 := by
  induction attempts generalizing before with
  | nil => exact Nat.zero_le _
  | cons attempt attempts ih =>
      obtain ⟨middle, hfirst, hrest⟩ := hhistory
      simp only [List.forall_mem_cons] at hnode
      rw [List.flatMap_cons, List.length_append]
      calc (sealings attempt.trace).length + _
          ≤ attempt.sessionId.toList.length * 65535 + (65535 - rank middle) * 65535 :=
            Nat.add_le_add (length_sealings_le attempt) (ih hnode.2 hrest)
        _ = (attempt.sessionId.toList.length + (65535 - rank middle)) * 65535 :=
            (Nat.add_mul _ _ _).symm
        _ ≤ (65535 - rank before) * 65535 :=
            Nat.mul_le_mul_right _ (Attempt.rank_lt hnode.1 hfirst)

/-! ## What can still be sent -/

/-- Runs under one key path, each complete or killed anywhere, that find `contents` in their
session file and leave `after`. -/
structure Sequel (locate : PathBuf → Node) (keyPath : PathBuf) (contents : FileContents)
    (attempts : List (Attempt target)) (after : FileContents) : Prop where
  keyPath_eq : ∀ attempt ∈ attempts, attempt.config.keyPath = keyPath
  history : History (NodeStep locate (locate (SessionIdStore.new keyPath).path)) contents attempts
    after

theorem Sequel.node_eq (hsequel : Sequel locate keyPath before attempts after) :
    ∀ attempt ∈ attempts,
      locate attempt.store.path = locate (SessionIdStore.new keyPath).path :=
  fun attempt hmem => by rw [store, hsequel.keyPath_eq attempt hmem]

theorem storedValue_of_rank {contents : FileContents} (hrank : rank contents < 65535) :
    ∃ value < 65535, storedValue contents = some value := by
  cases hvalue : storedValue contents with
  | none =>
      rw [rank, hvalue] at hrank
      exact absurd hrank (by decide)
  | some value =>
      rw [rank_eq hvalue] at hrank
      exact ⟨value, hrank, rfl⟩

/-- When every run that finds the file is refused, it stays as it is, and so do the refusals. -/
theorem History.unchanged_of_refused
    (hhistory : History (NodeStep locate node) before attempts after)
    (hrefused : ∀ attempt ∈ attempts, ∀ left,
      Follows (NodeStep locate node) before attempt.trace left → Refused attempt) :
    after = before ∧ ∀ attempt ∈ attempts, Refused attempt := by
  induction attempts with
  | nil => exact ⟨hhistory, by simp⟩
  | cons attempt attempts ih =>
      obtain ⟨middle, hfirst, hrest⟩ := hhistory
      rw [List.forall_mem_cons] at hrefused
      have hnow := hrefused.1 middle hfirst
      have hsame : middle = before := follows_of_not_writes hfirst fun event hmem hwrites =>
        hnow.2 event hmem hwrites.isWrite
      subst hsame
      obtain ⟨hafter, hothers⟩ := ih hrest hrefused.2
      exact ⟨hafter, List.forall_mem_cons.mpr ⟨hnow, hothers⟩⟩

/-- A run without a session id uses its key for nothing and sends nothing. -/
theorem Refused.silent {attempt : Attempt target} (hrefused : Refused attempt) :
    sealings attempt.trace = [] ∧ datagrams attempt.trace = [] := by
  constructor
  · have hlength := length_sealings_le attempt
    rw [hrefused.1, Option.toList_none, List.length_nil, Nat.zero_mul] at hlength
    exact List.eq_nil_of_length_eq_zero (Nat.le_zero.mp hlength)
  · apply List.eq_nil_iff_forall_not_mem.mpr
    intro packet hmem
    cases hrefused.1.symm.trans (sessionId_of_mem_datagrams hmem)

/-- A key file, and the given contents everywhere else. -/
def keyedFiles (locate : PathBuf → Node) (keyPath : PathBuf) (contents : FileContents) :
    Node → FileContents :=
  Function.update (fun _ => contents) (locate keyPath) (some sampleKey.toList)

def oneByteFrame (target : Target) : ByteVec target :=
  ⟨[1], by
    have hisize := target.isizeMax_eq
    rw [List.length_singleton]
    omega⟩

theorem keyedFiles_session (happart : locate keyPath ≠ locate (SessionIdStore.new keyPath).path)
    (contents : FileContents) :
    keyedFiles locate keyPath contents (locate (SessionIdStore.new keyPath).path) = contents :=
  Function.update_of_ne happart.symm _ _

theorem ready_keyedFiles (happart : locate keyPath ≠ locate (SessionIdStore.new keyPath).path)
    {contents : FileContents} {value : ℕ} (hvalue : storedValue contents = some value) :
    Ready locate (keyedFiles locate keyPath contents) keyPath sampleKey value where
  key_eq := Function.update_self _ _ _
  value_eq := by rwa [keyedFiles_session happart]
  apart := happart

/-- On every state of the session file that has a value left there is a run that sends. -/
theorem exists_sending (target : Target) (happart : locate keyPath ≠
      locate (SessionIdStore.new keyPath).path) {value : ℕ} (hroom : value < 65535)
    (hvalue : storedValue before = some value) :
    ∃ (attempt : Attempt target) (after : FileContents), attempt.config.keyPath = keyPath ∧
      Follows (NodeStep locate (locate (SessionIdStore.new keyPath).path)) before attempt.trace
        after ∧
      datagrams attempt.trace ≠ [] := by
  have hready : Ready locate _ (sampleConfig keyPath).keyPath sampleKey value :=
    ready_keyedFiles happart hvalue
  have hframe : (oneByteFrame target).val ≠ [] := List.cons_ne_nil _ _
  have hfits : dataCount (oneByteFrame target).val +
      parityCount (sampleConfig keyPath).parityRatio (oneByteFrame target).val ≤ 256 :=
    (by decide : dataCount [1] + parityCount sampleRatio [1] ≤ 256)
  obtain ⟨attempt, raw, -, hconfig, -, -, -, hcompletes, -⟩ :=
    exists_plain documented_copyingCrate rfl hframe hfits hready hroom
  have hfollows := follows_node hcompletes.follows (locate (SessionIdStore.new keyPath).path)
  rw [keyedFiles_session happart] at hfollows
  exact ⟨attempt, _, congrArg Config.keyPath hconfig, hfollows,
    datagrams_ne_nil hcompletes.rest_eq (by rw [hconfig]; rfl) (by rw [hconfig]; rfl)⟩

/-- A run with this session file can still get a session id: the file is not that of the key, and
it stands for a value below the last one. -/
def Usable (locate : PathBuf → Node) (keyPath : PathBuf) (contents : FileContents) : Prop :=
  locate keyPath ≠ locate (SessionIdStore.new keyPath).path ∧
    ∃ value < 65535, storedValue contents = some value

omit [DecidableEq Node] in
theorem not_usable_iff {contents : FileContents} :
    ¬ Usable locate keyPath contents ↔
      locate keyPath = locate (SessionIdStore.new keyPath).path ∨ 65535 ≤ rank contents := by
  have hvalue : (∃ value < 65535, storedValue contents = some value) ↔ rank contents < 65535 := by
    constructor
    · rintro ⟨value, hroom, hvalue⟩
      rwa [rank_eq hvalue]
    · exact storedValue_of_rank
  rw [Usable, hvalue, not_and_or, not_not, not_lt]

/-- Without a usable session file every run is refused. -/
theorem Sequel.refused {contents : FileContents}
    (hsequel : Sequel locate keyPath contents attempts after)
    (hstuck : ¬ Usable locate keyPath contents) :
    after = contents ∧ ∀ attempt ∈ attempts, Refused attempt := by
  apply hsequel.history.unchanged_of_refused
  intro attempt hmem left hfollows
  rw [← hsequel.node_eq attempt hmem] at hfollows
  rcases not_usable_iff.mp hstuck with hsame | hrank
  · apply refused_of_coinciding hfollows
    rw [hsequel.node_eq attempt hmem, hsequel.keyPath_eq attempt hmem, hsame]
  · exact exhausted hfollows hrank

/-- Some runs can still send exactly when the session file is usable.  Otherwise none does, now or
later: the key is not used and the file stays as it is. -/
theorem can_send_iff (target : Target) (locate : PathBuf → Node) (keyPath : PathBuf)
    (contents : FileContents) :
    ((∃ (attempts : List (Attempt target)) (after : FileContents),
        Sequel locate keyPath contents attempts after ∧
        ∃ attempt ∈ attempts, datagrams attempt.trace ≠ []) ↔ Usable locate keyPath contents) ∧
    (¬ Usable locate keyPath contents →
      ∀ (attempts : List (Attempt target)) (after : FileContents),
        Sequel locate keyPath contents attempts after →
        after = contents ∧ ∀ attempt ∈ attempts, attempt.sessionId = none ∧
          sealings attempt.trace = [] ∧ datagrams attempt.trace = []) := by
  have hsilent : ¬ Usable locate keyPath contents →
      ∀ (attempts : List (Attempt target)) (after : FileContents),
        Sequel locate keyPath contents attempts after →
        after = contents ∧ ∀ attempt ∈ attempts, attempt.sessionId = none ∧
          sealings attempt.trace = [] ∧ datagrams attempt.trace = [] := by
    intro hstuck attempts after hsequel
    obtain ⟨hafter, hrefused⟩ := hsequel.refused hstuck
    exact ⟨hafter, fun attempt hmem =>
      ⟨(hrefused attempt hmem).1, (hrefused attempt hmem).silent⟩⟩
  refine ⟨⟨?_, ?_⟩, hsilent⟩
  · rintro ⟨attempts, after, hsequel, attempt, hmem, hsent⟩
    by_contra hstuck
    exact hsent ((hsilent hstuck attempts after hsequel).2 attempt hmem).2.2
  · rintro ⟨happart, value, hroom, hvalue⟩
    obtain ⟨attempt, after, hkeyPath, hfollows, hsent⟩ :=
      exists_sending target happart hroom hvalue
    exact ⟨[attempt], after, ⟨by simpa using hkeyPath, after, hfollows, rfl⟩, attempt,
      List.mem_singleton_self _, hsent⟩

end Node

theorem history_usage_sample :
    ∃ first second : Attempt Target.release64,
      first.sessionId = some ⟨1⟩ ∧ second.sessionId = some ⟨2⟩ ∧
      ([first, second].flatMap fun attempt => sealings attempt.trace).length ≤
        (65535 - rank none) * 65535 := by
  obtain ⟨first, second, after, hfirst, hsecond, hkeyPath, hhistory⟩ := exists_plainHistory
  rw [sampleFiles_session] at hhistory
  exact ⟨first, second, hfirst.sessionId_eq, hsecond.sessionId_eq,
    history_usage (fun attempt hmem => by rw [store, hkeyPath attempt hmem]) hhistory⟩

/-- Without a session file a key file can be used, unless it is named like one. -/
theorem can_send_iff_sample :
    (∃ (attempts : List (Attempt Target.release64)) (after : FileContents),
      Sequel id sampleKeyPath none attempts after ∧
      ∃ attempt ∈ attempts, datagrams attempt.trace ≠ []) ∧
    ¬ ∃ (attempts : List (Attempt Target.release64)) (after : FileContents),
      Sequel id coincidingPath none attempts after ∧
      ∃ attempt ∈ attempts, datagrams attempt.trace ≠ [] := by
  constructor
  · exact (can_send_iff Target.release64 id sampleKeyPath none).1.mpr
      ⟨ready_sampleFiles.apart, 0, by decide, rfl⟩
  · rw [(can_send_iff Target.release64 id coincidingPath none).1]
    exact fun husable => husable.1 (by decide)

end Fiudp.Run
