import Fiudp.Run.History

/-!
# Key files with several paths

The session file is found from the key path as it is spelled.  Runs that spell it so
that they share a session file never share a session id; runs that do not, may.
-/

namespace Fiudp.Run

open ByteLayout Protocol Interaction Sender Session Os

variable {target : Target}

/-- The runs whose session path leads to this file. -/
def sharing {Node : Type} [DecidableEq Node] (locate : PathBuf → Node) (node : Node)
    (attempts : List (Attempt target)) : List (Attempt target) :=
  attempts.filter fun attempt => locate attempt.store.path = node

/-- On every file system, in every history of runs under any key paths: the runs that
share a session file have increasing session ids, and no key and nonce in common. -/
theorem sharing_nonces {Node : Type} [DecidableEq Node] {locate : PathBuf → Node}
    {before after : Node → FileContents} {attempts : List (Attempt target)}
    (hhistory : History (FileStep locate) before attempts after) (node : Node) :
    (issuedIds (sharing locate node attempts)).Pairwise (· < ·) ∧
      ((sharing locate node attempts).flatMap fun attempt => sealings attempt.trace).Nodup := by
  have hnode : History (NodeStep locate node) (before node) attempts (after node) :=
    hhistory.view (fun files => files node) fun _ _ _ hstep => hstep node
  have hincreasing : Increasing (sharing locate node attempts) := by
    rw [sharing, Increasing, List.pairwise_filter]
    simpa using hnode.increasing
  refine ⟨issuedIds_increasing hincreasing, List.Nodup.of_map Prod.snd ?_⟩
  rw [List.map_flatMap]
  exact nodup_flatMap_nonces hincreasing

/-! ## A link to the key file -/

section Linked

/-- A file system in which one path is a link to the key file. -/
def linked (link path : PathBuf) : PathBuf := if path = link then sampleKeyPath else path

variable {link : PathBuf}

theorem linked_link : linked link link = sampleKeyPath := if_pos rfl

theorem linked_sampleKeyPath : linked link sampleKeyPath = sampleKeyPath := ite_self _

theorem linked_of_ne {path : PathBuf} (hpath : path ≠ link) : linked link path = path :=
  if_neg hpath

theorem ready_linked (hlink : (SessionIdStore.new sampleKeyPath).path ≠ link) :
    Ready (linked link) sampleFiles sampleKeyPath sampleKey 0 where
  key_eq := by
    rw [linked_sampleKeyPath]
    exact ready_sampleFiles.key_eq
  value_eq := by
    rw [linked_of_ne hlink]
    exact ready_sampleFiles.value_eq
  apart := by
    rw [linked_sampleKeyPath, linked_of_ne hlink]
    exact ready_sampleFiles.apart

/-- The same key file with a session file, spelled by its link. -/
theorem Ready.respell {files : PathBuf → FileContents} {value other : ℕ}
    (hready : Ready (linked link) files sampleKeyPath sampleKey value)
    (hother : storedValue (files (linked link (SessionIdStore.new link).path)) = some other)
    (hapart : sampleKeyPath ≠ linked link (SessionIdStore.new link).path) :
    Ready (linked link) files link sampleKey other where
  key_eq := by rw [linked_link, ← hready.key_eq, linked_sampleKeyPath]
  value_eq := hother
  apart := by rwa [linked_link]

end Linked

/-- A path in the same directory, with the same name up to its extension. -/
def besidePath : PathBuf := ⟨"./psk.key".toList⟩

theorem session_besidePath :
    (SessionIdStore.new besidePath).path = (SessionIdStore.new sampleKeyPath).path := by decide

/-- The second run finds the session file of the first. -/
theorem sharing_nonces_beside :
    ∃ attempts : List (Attempt Target.release64),
      attempts.map (fun attempt => attempt.config.keyPath) = [sampleKeyPath, besidePath] ∧
      issuedIds (sharing (linked besidePath) (SessionIdStore.new sampleKeyPath).path attempts) =
        [1, 2] ∧
      (issuedIds (sharing (linked besidePath) (SessionIdStore.new sampleKeyPath).path
        attempts)).Pairwise (· < ·) ∧
      ((sharing (linked besidePath) (SessionIdStore.new sampleKeyPath).path attempts).flatMap
        fun attempt => sealings attempt.trace).Nodup := by
  have hready : Ready (linked besidePath) sampleFiles sampleKeyPath sampleKey 0 :=
    ready_linked (by decide)
  obtain ⟨first, one, hfirst, hone, hfirstId, hfirstRun, -⟩ := hready.exists_sample (by omega)
  have hnext := hready.persist one
  have hbeside : Ready (linked besidePath) _ besidePath sampleKey one.toNat :=
    hnext.respell (by rw [session_besidePath]; exact hnext.value_eq)
      (by rw [session_besidePath]; decide)
  obtain ⟨second, two, hsecond, htwo, hsecondId, hsecondRun, -⟩ :=
    hbeside.exists_sample (by omega)
  have hhistory : History (FileStep (linked besidePath)) sampleFiles [first, second] _ :=
    ⟨_, hfirstRun.follows, _, hsecondRun.follows, rfl⟩
  refine ⟨[first, second], by simp [hfirst, hsecond, sampleConfig], ?_,
    sharing_nonces hhistory _⟩
  have hshared : ∀ attempt ∈ [first, second],
      linked besidePath attempt.store.path = (SessionIdStore.new sampleKeyPath).path := by
    simp only [List.forall_mem_cons, Attempt.store, hfirst, hsecond, sampleConfig,
      session_besidePath]
    exact ⟨linked_of_ne (by decide), linked_of_ne (by decide), by simp⟩
  rw [sharing, List.filter_eq_self.mpr (by simpa using hshared)]
  simp [issuedIds, hfirstId, hsecondId, hone, htwo]

/-- A link under another name. -/
def aliasPath : PathBuf := ⟨"./alias.bin".toList⟩

/-- Two successful runs under two paths of one key file, which both use the first
session id, and a nonce in common. -/
theorem alias_reuses_nonce :
    ∃ (first second : Attempt Target.release64) (after : PathBuf → FileContents),
      History (FileStep (linked aliasPath)) sampleFiles [first, second] after ∧
      linked aliasPath first.config.keyPath = linked aliasPath second.config.keyPath ∧
      first.rest = .done (.ok ()) ∧ second.rest = .done (.ok ()) ∧
      first.sessionId = some ⟨1⟩ ∧ second.sessionId = some ⟨1⟩ ∧
      ∃ pair, pair ∈ sealings first.trace ∧ pair ∈ sealings second.trace := by
  have hready : Ready (linked aliasPath) sampleFiles sampleKeyPath sampleKey 0 :=
    ready_linked (by decide)
  obtain ⟨first, one, hfirst, hone, hfirstId, hfirstRun, hfirstPair⟩ :=
    hready.exists_sample (by omega)
  have habsent : storedValue (Function.update sampleFiles
      (linked aliasPath (SessionIdStore.new sampleKeyPath).path)
      (some (u16ToBeBytes one).toList)
      (linked aliasPath (SessionIdStore.new aliasPath).path)) = some 0 := by
    rw [Function.update_of_ne (by decide)]
    decide
  obtain ⟨second, two, hsecond, htwo, hsecondId, hsecondRun, hsecondPair⟩ :=
    ((hready.persist one).respell habsent (by decide)).exists_sample (by omega)
  have hone' : one = 1 := UInt16.toNat_inj.mp hone
  have htwo' : two = 1 := UInt16.toNat_inj.mp htwo
  subst hone' htwo'
  refine ⟨first, second, _, ⟨_, hfirstRun.follows, _, hsecondRun.follows, rfl⟩, ?_,
    hfirstRun.rest_eq, hsecondRun.rest_eq, hfirstId, hsecondId, _, hfirstPair, hsecondPair⟩
  rw [hfirst, hsecond]
  exact linked_sampleKeyPath.trans linked_link.symm

end Fiudp.Run
