import Fiudp.Run.Success

/-!
# Histories of runs

Runs that follow one another, each complete or killed anywhere.  As long as they
share one session file, their ids increase and no nonce is used twice.
-/

namespace Fiudp.Run

open ByteLayout Protocol Interaction Sender Session Os

variable {target : Target} {State : Type}

/-- The runs, one after the other, lead from the first state to the last. -/
def History (step : State → Event Syscall (SysReply target) → State → Prop) :
    State → List (Attempt target) → State → Prop
  | before, [], after => after = before
  | before, attempt :: attempts, after =>
      ∃ middle, Follows step before attempt.trace middle ∧ History step middle attempts after

/-- The session ids obtained, in order. -/
def issuedIds (attempts : List (Attempt target)) : List ℕ :=
  attempts.filterMap fun attempt => attempt.sessionId.map fun id => id.raw.toNat

/-- A run, such as any after the overflow, that obtains no session id and writes to no file. -/
def Refused (attempt : Attempt target) : Prop :=
  attempt.sessionId = none ∧ ∀ event ∈ attempt.trace, ¬ event.call.IsWrite

namespace History

/-- A history of a world is a history of every view of it. -/
theorem view {View : Type} {step : State → Event Syscall (SysReply target) → State → Prop}
    (observe : State → View) {coarse : View → Event Syscall (SysReply target) → View → Prop}
    {before after : State} {attempts : List (Attempt target)}
    (hhistory : History step before attempts after)
    (hstep : ∀ left event right, step left event right →
      coarse (observe left) event (observe right)) :
    History coarse (observe before) attempts (observe after) := by
  induction attempts generalizing before with
  | nil =>
      cases hhistory
      rfl
  | cons attempt attempts ih =>
      obtain ⟨middle, hfirst, hrest⟩ := hhistory
      exact ⟨observe middle, hfirst.view observe hstep, ih hrest⟩

section Node

variable {Node : Type} [DecidableEq Node] {locate : PathBuf → Node} {node : Node}
  {before after : FileContents} {attempts : List (Attempt target)}

/-- The rank of the file bounds the ids obtained before and after. -/
theorem rank_le (hhistory : History (NodeStep locate node) before attempts after) :
    rank before ≤ rank after ∧ ∀ attempt ∈ attempts, locate attempt.store.path = node →
      ∀ id, attempt.sessionId = some id →
        rank before < id.raw.toNat ∧ id.raw.toNat ≤ rank after := by
  induction attempts generalizing before with
  | nil =>
      cases hhistory
      exact ⟨le_rfl, by simp⟩
  | cons attempt attempts ih =>
      obtain ⟨middle, hfirst, hrest⟩ := hhistory
      obtain ⟨hgrows, hid⟩ := Attempt.rank_le hfirst
      obtain ⟨hlater, hids⟩ := ih hrest
      refine ⟨hgrows.trans hlater, List.forall_mem_cons.mpr ⟨?_, ?_⟩⟩
      · intro hnode id hsome
        obtain ⟨hlow, hhigh⟩ := hid hnode id hsome
        exact ⟨hlow, hhigh.trans hlater⟩
      · intro other hmem hnode id hsome
        obtain ⟨hlow, hhigh⟩ := hids other hmem hnode id hsome
        exact ⟨hgrows.trans_lt hlow, hhigh⟩

/-- Of two runs with this session file the later one obtains the larger id. -/
theorem increasing (hhistory : History (NodeStep locate node) before attempts after) :
    attempts.Pairwise fun earlier later => locate earlier.store.path = node →
      locate later.store.path = node → ∀ first second, earlier.sessionId = some first →
        later.sessionId = some second → first.raw.toNat < second.raw.toNat := by
  induction attempts generalizing before with
  | nil => exact .nil
  | cons attempt attempts ih =>
      obtain ⟨middle, hfirst, hrest⟩ := hhistory
      refine .cons (fun later hmem hnode hlater first second hsome hsecond => ?_) (ih hrest)
      have hbound := ((Attempt.rank_le hfirst).2 hnode first hsome).2
      have hnext := ((rank_le hrest).2 later hmem hlater second hsecond).1
      exact hbound.trans_lt hnext

/-- Past the last value every run with this session file is refused. -/
theorem refused_of_rank (hhistory : History (NodeStep locate node) before attempts after)
    (hrank : 65535 ≤ rank before) :
    ∀ attempt ∈ attempts, locate attempt.store.path = node → Refused attempt := by
  induction attempts generalizing before with
  | nil => simp
  | cons attempt attempts ih =>
      obtain ⟨middle, hfirst, hrest⟩ := hhistory
      refine List.forall_mem_cons.mpr ⟨?_, ih hrest (hrank.trans (Attempt.rank_le hfirst).1)⟩
      rintro rfl
      exact Attempt.exhausted hfirst hrank

/-- After an overflow every run with this session file is refused. -/
theorem overflow_final (hhistory : History (NodeStep locate node) before attempts after) :
    attempts.Pairwise fun earlier later => locate earlier.store.path = node →
      locate later.store.path = node →
        earlier.nextResult = some (.error (.error .sessionIdOverflow)) → Refused later := by
  induction attempts generalizing before with
  | nil => exact .nil
  | cons attempt attempts ih =>
      obtain ⟨middle, hfirst, hrest⟩ := hhistory
      refine .cons (fun later hmem hnode hlater hoverflow => ?_) (ih hrest)
      subst hnode
      have hfull := rank_eq (Attempt.storedValue_of_overflow hfirst hoverflow)
      exact refused_of_rank hrest (hfull.ge.trans (Attempt.rank_le hfirst).1) later hmem hlater

end Node

end History

/-! ## Runs with increasing ids -/

/-- A later run with an id has a larger one. -/
abbrev Increasing (attempts : List (Attempt target)) : Prop :=
  attempts.Pairwise fun earlier later => ∀ first second, earlier.sessionId = some first →
    later.sessionId = some second → first.raw.toNat < second.raw.toNat

theorem issuedIds_increasing {attempts : List (Attempt target)}
    (hincreasing : Increasing attempts) : (issuedIds attempts).Pairwise (· < ·) := by
  rw [issuedIds, List.pairwise_filterMap]
  apply hincreasing.imp
  intro earlier later hlt first hfirst second hsecond
  obtain ⟨firstId, hfirstId, rfl⟩ := Option.map_eq_some_iff.mp hfirst
  obtain ⟨secondId, hsecondId, rfl⟩ := Option.map_eq_some_iff.mp hsecond
  exact hlt firstId secondId hfirstId hsecondId

/-- Runs with different ids have different nonces. -/
theorem disjoint_nonces {earlier later : Attempt target}
    (hids : ∀ first second, earlier.sessionId = some first → later.sessionId = some second →
      first ≠ second) : earlier.nonces.Disjoint later.nonces := by
  intro nonce hearlier hlater
  obtain ⟨first, firstIndex, hfirst, rfl⟩ := Attempt.exists_of_mem_nonces hearlier
  obtain ⟨second, secondIndex, hsecond, heq⟩ := Attempt.exists_of_mem_nonces hlater
  exact hids first second hfirst hsecond (Crypto.deriveNonce_injective heq).1

theorem nodup_flatMap_nonces {attempts : List (Attempt target)}
    (hincreasing : Increasing attempts) : (attempts.flatMap Attempt.nonces).Nodup := by
  rw [List.nodup_flatMap]
  refine ⟨fun attempt _ => attempt.nodup_nonces, hincreasing.imp fun hlt => ?_⟩
  apply disjoint_nonces
  rintro first second hfirst hsecond rfl
  exact lt_irrefl _ (hlt first first hfirst hsecond)

/-! ## One key path -/

/-- Under one key path, whatever happens to the runs: the session ids increase from
at least 1, after an overflow every run is refused, and no nonce is used twice. -/
theorem history_nonces {Node : Type} [DecidableEq Node] {locate : PathBuf → Node}
    {keyPath : PathBuf} {before after : FileContents} {attempts : List (Attempt target)}
    (hkeyPath : ∀ attempt ∈ attempts, attempt.config.keyPath = keyPath)
    (hhistory : History (NodeStep locate (locate (SessionIdStore.new keyPath).path)) before
      attempts after) :
    (issuedIds attempts).Pairwise (· < ·) ∧ (∀ id ∈ issuedIds attempts, 1 ≤ id) ∧
      (attempts.Pairwise fun earlier later =>
        earlier.nextResult = some (.error (.error .sessionIdOverflow)) → Refused later) ∧
      (attempts.flatMap Attempt.nonces).Nodup := by
  have hnode : ∀ attempt ∈ attempts,
      locate attempt.store.path = locate (SessionIdStore.new keyPath).path := by
    intro attempt hmem
    rw [Attempt.store, hkeyPath attempt hmem]
  have hincreasing : Increasing attempts :=
    hhistory.increasing.imp_of_mem fun hfirst hsecond hlt =>
      hlt (hnode _ hfirst) (hnode _ hsecond)
  refine ⟨issuedIds_increasing hincreasing, ?_, ?_, nodup_flatMap_nonces hincreasing⟩
  · intro id hmem
    obtain ⟨attempt, hattempt, hid⟩ := List.mem_filterMap.mp hmem
    obtain ⟨sessionId, hsome, rfl⟩ := Option.map_eq_some_iff.mp hid
    have hlow := (hhistory.rank_le.2 attempt hattempt (hnode attempt hattempt) sessionId hsome).1
    omega
  · exact hhistory.overflow_final.imp_of_mem fun hfirst hsecond hrefused =>
      hrefused (hnode _ hfirst) (hnode _ hsecond)

/-- Two runs, starting from a key file alone. -/
theorem history_nonces_sample :
    ∃ attempts : List (Attempt Target.release64), issuedIds attempts = [1, 2] ∧
      (issuedIds attempts).Pairwise (· < ·) ∧ (∀ id ∈ issuedIds attempts, 1 ≤ id) ∧
      (attempts.Pairwise fun earlier later =>
        earlier.nextResult = some (.error (.error .sessionIdOverflow)) → Refused later) ∧
      (attempts.flatMap Attempt.nonces).Nodup := by
  obtain ⟨first, one, hfirst, hone, hfirstId, hfirstRun, -⟩ :=
    ready_sampleFiles.exists_sample (by omega)
  obtain ⟨second, two, hsecond, htwo, hsecondId, hsecondRun, -⟩ :=
    (ready_sampleFiles.persist one).exists_sample (by omega)
  have hhistory : History (FileStep id) sampleFiles [first, second] _ :=
    ⟨_, hfirstRun.follows, _, hsecondRun.follows, rfl⟩
  have hkeyPath : ∀ attempt ∈ [first, second], attempt.config.keyPath = sampleKeyPath := by
    simp [hfirst, hsecond, sampleConfig]
  refine ⟨[first, second], ?_, history_nonces hkeyPath (hhistory.view
    (fun files => files (SessionIdStore.new sampleKeyPath).path) fun _ _ _ hstep => hstep _)⟩
  simp [issuedIds, hfirstId, hsecondId, hone, htwo]

end Fiudp.Run
