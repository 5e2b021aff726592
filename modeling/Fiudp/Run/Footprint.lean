import Fiudp.Run.History
import Fiudp.Run.Rejection

/-!
# What a run changes on disk

The session path is the key path rewritten, so the two may be one file.  A run checks
that its key has 32 bytes before it reads the counter, and that the counter has two
bytes before it writes to it; the two checks together keep the key file.
-/

namespace Fiudp.Run

open ByteLayout Protocol Interaction Sender Session SessionIdStore Os

variable {target : Target}

/-! ## Whole writes -/

theorem bytesLanded_append (first second : SysTrace target) :
    bytesLanded (first ++ second) = bytesLanded first + bytesLanded second := by
  induction first with
  | nil => exact (Nat.zero_add _).symm
  | cons event first ih =>
      obtain ⟨call, reply⟩ := event
      cases call with
      | writeByte path offset byte =>
          cases reply with
          | ok =>
              change bytesLanded (first ++ second) + 1 = bytesLanded first + 1 + _
              rw [ih, Nat.add_right_comm]
          | error kind => exact ih
      | _ => exact ih

theorem bytesLanded_of_not_isWrite {trace : SysTrace target}
    (htrace : ∀ event ∈ trace, ¬ event.call.IsWrite) : bytesLanded trace = 0 := by
  induction trace with
  | nil => rfl
  | cons event trace ih =>
      simp only [List.forall_mem_cons] at htrace
      obtain ⟨call, reply⟩ := event
      cases call with
      | writeByte path offset byte => exact absurd trivial htrace.1
      | _ => exact ih htrace.2

/-- No write stops in its middle: once the file has been truncated, both bytes follow. -/
def WholeWrites (store : SessionIdStore) (trace : SysTrace target) : Prop :=
  Truncated store trace → bytesLanded trace = 2

section Node

variable {Node : Type} [DecidableEq Node] {locate : PathBuf → Node} {node : Node}
  {before after : FileContents}

/-- A call that does not stop in the middle of its write leaves the file alone or has
replaced it by the next value. -/
theorem next_whole {store : SessionIdStore} {trace : SysTrace target} {rest : Remaining target}
    (hsteps : Steps store.next.run trace rest)
    (hfollows : Follows (NodeStep locate (locate store.path)) before trace after)
    (hwhole : WholeWrites store trace) :
    after = before ∨ ∃ value raw, storedValue before = some value ∧
      raw.toNat = value + 1 ∧ after = some (u16ToBeBytes raw).toList := by
  rcases steps_next hsteps with ⟨rfl, -⟩ | ⟨reply, tail, rfl, hcases⟩
  · exact .inl hfollows
  obtain ⟨middle, ⟨hallows, hmiddle⟩, htail⟩ := hfollows
  cases (hmiddle : middle = before)
  rcases hcases with ⟨failure, -, rfl, -⟩ | ⟨raw, left, hdecision, hprogress⟩
  · exact .inl htail
  obtain ⟨value, hvalue, hraw⟩ := decision_eq_ok hdecision hallows
  have hcontents := hprogress.contents htail
  rcases hprogress.landed with ⟨rfl, -⟩ | ⟨bytes, rfl, -, hopened, hlanded⟩ | ⟨rfl, -⟩
  · exact .inl hcontents
  · exact absurd (hwhole (List.mem_cons_of_mem _ hopened)) hlanded.ne
  · exact .inr ⟨value, raw, hvalue, hraw, hcontents⟩

namespace Attempt

variable {attempt : Attempt target}

/-- The writes of a run are those of its call of `next`. -/
theorem Course.wholeWrites (course : Course attempt)
    (hwhole : WholeWrites attempt.store attempt.trace) :
    WholeWrites attempt.store course.session := by
  intro htruncated
  have hopening : bytesLanded course.opening = 0 := by
    apply bytesLanded_of_not_isWrite
    intro event hmem hwrite
    rw [course.opening_reads event hmem] at hwrite
    exact hwrite
  have htransmission := bytesLanded_of_not_isWrite course.transmission_reads
  have hmem : Truncated attempt.store attempt.trace := by
    rw [Truncated, course.trace_eq]
    exact List.mem_append_right _ (List.mem_append_left _ htruncated)
  have hlanded := hwhole hmem
  rw [course.trace_eq, bytesLanded_append, bytesLanded_append] at hlanded
  omega

theorem effect_of_whole
    (hfollows : Follows (NodeStep locate (locate attempt.store.path)) before attempt.trace after)
    (hwhole : WholeWrites attempt.store attempt.trace) :
    after = before ∨ ∃ value raw, storedValue before = some value ∧
      raw.toNat = value + 1 ∧ after = some (u16ToBeBytes raw).toList := by
  obtain ⟨course⟩ := attempt.course
  exact next_whole course.session_steps (course.follows hfollows) (course.wholeWrites hwhole)

/-- A run that finds no key of 32 bytes ends with the read of it. -/
theorem refused_or_key
    (hfollows : Follows (NodeStep locate (locate attempt.config.keyPath)) before attempt.trace
      after) :
    Refused attempt ∨ ∃ bytes, before = some bytes ∧ bytes.length = 32 := by
  have hunread : attempt.trace.tail = [] → attempt.sessionId = none := by
    intro htail
    rw [sessionId, nextResult, htail, Program.resume_nil, next_run]
    rfl
  rcases steps_run attempt.steps with ⟨htrace, -⟩ | ⟨reply, tail, htrace, hcases⟩
  · exact .inl ⟨hunread (by rw [htrace]; rfl), by simp [htrace]⟩
  rcases hcases with ⟨failure, -, rfl, -⟩ | ⟨key, hkey, -⟩
  · refine .inl ⟨hunread (by rw [htrace]; rfl), ?_⟩
    rw [htrace, List.forall_mem_singleton]
    exact id
  rw [htrace] at hfollows
  obtain ⟨middle, ⟨hallows, -⟩, -⟩ := hfollows
  cases reply with
  | error kind => cases hkey
  | ok bytes =>
      rw [keyDecision] at hkey
      split at hkey
      · rename_i hlength
        exact .inr ⟨bytes.val, hallows rfl, hlength⟩
      · cases hkey

/-- A run that has changed a file has found a key of 32 bytes. -/
theorem unchanged_or_key
    (hfollows : Follows (NodeStep locate (locate attempt.config.keyPath)) before attempt.trace
      after) :
    after = before ∨ ∃ bytes, before = some bytes ∧ bytes.length = 32 :=
  (refused_or_key hfollows).imp_left fun hrefused =>
    follows_of_not_writes hfollows fun event hmem hwrites =>
      hrefused.2 event hmem hwrites.isWrite

/-- A file that has to be the key and the counter is neither: no run gets past it. -/
theorem refused_of_coinciding
    (hfollows : Follows (NodeStep locate (locate attempt.store.path)) before attempt.trace after)
    (hsame : locate attempt.config.keyPath = locate attempt.store.path) : Refused attempt := by
  rw [← hsame] at hfollows
  rcases refused_or_key hfollows with hrefused | ⟨bytes, rfl, hlength⟩
  · exact hrefused
  · rw [hsame] at hfollows
    apply exhausted hfollows
    rw [rank, storedValue, if_neg (by omega)]
    decide

/-- The key file stays as it is, also when it is the session file: a file of 32 bytes
holds no counter. -/
theorem key_unchanged
    (hfollows : Follows (NodeStep locate (locate attempt.config.keyPath)) before attempt.trace
      after)
    (hwhole : WholeWrites attempt.store attempt.trace) : after = before := by
  by_cases hnode : locate attempt.store.path = locate attempt.config.keyPath
  · rcases unchanged_or_key hfollows with hsame | ⟨bytes, hbytes, hlength⟩
    · exact hsame
    rw [← hnode] at hfollows
    rcases effect_of_whole hfollows hwhole with hsame | ⟨value, raw, hvalue, -, -⟩
    · exact hsame
    · rw [hbytes, storedValue, hlength] at hvalue
      cases hvalue
  · exact unchanged hfollows hnode

end Attempt

end Node

/-! ## The footprint of a run -/

/-- The file is created with the value 1, or its two bytes are replaced by the next
value. -/
inductive Advances : FileContents → FileContents → Prop
  | created : Advances none (some [0, 1])
  | incremented (bytes : List UInt8) :
      bytes.length = 2 → beValue bytes + 1 ≤ 65535 →
        Advances (some bytes) (some (beBytes 2 (beValue bytes + 1)))

theorem advances_of_storedValue {before : FileContents} {value : ℕ} {raw : UInt16}
    (hvalue : storedValue before = some value) (hraw : raw.toNat = value + 1) :
    Advances before (some (u16ToBeBytes raw).toList) := by
  have hlist : (u16ToBeBytes raw).toList = beBytes 2 (value + 1) := by rw [← hraw]; rfl
  rw [hlist]
  cases before with
  | none =>
      cases hvalue
      exact .created
  | some bytes =>
      have hlt := raw.toNat_lt
      rw [storedValue] at hvalue
      split at hvalue
      · rename_i hlength
        cases hvalue
        exact .incremented bytes hlength (by omega)
      · cases hvalue

/-- What a run may change on a file system: its session file, and that by one. -/
structure Footprint {Node : Type} (locate : PathBuf → Node) (attempt : Attempt target)
    (before after : Node → FileContents) : Prop where
  others_unchanged : ∀ node, node ≠ locate attempt.store.path → after node = before node
  session_advances : after (locate attempt.store.path) = before (locate attempt.store.path) ∨
    Advances (before (locate attempt.store.path)) (after (locate attempt.store.path))
  key_unchanged :
    after (locate attempt.config.keyPath) = before (locate attempt.config.keyPath)

/-- A run changes nothing but its session counter, wherever the paths lead. -/
theorem run_footprint {Node : Type} [DecidableEq Node] {locate : PathBuf → Node}
    {attempt : Attempt target} {before after : Node → FileContents}
    (hfollows : Follows (FileStep locate) before attempt.trace after)
    (hwhole : WholeWrites attempt.store attempt.trace) :
    Footprint locate attempt before after := by
  constructor
  case others_unchanged =>
    intro node hnode
    exact Attempt.unchanged (follows_node hfollows node) hnode.symm
  case session_advances =>
    have hsession := follows_node hfollows (locate attempt.store.path)
    rcases Attempt.effect_of_whole hsession hwhole with hsame | ⟨value, raw, hvalue, hraw, hafter⟩
    · exact .inl hsame
    · rw [hafter]
      exact .inr (advances_of_storedValue hvalue hraw)
  case key_unchanged =>
    exact Attempt.key_unchanged (follows_node hfollows (locate attempt.config.keyPath)) hwhole

/-! ## A key file with the extension of the counter -/

def coincidingPath : PathBuf := ⟨"./psk.session_id".toList⟩

example : (SessionIdStore.new coincidingPath).path = coincidingPath := by decide

/-- The key is read twice, and the second time it is no counter. -/
def coincidingTrace : SysTrace Target.release64 :=
  [keyEvent coincidingPath sampleKey, keyEvent coincidingPath sampleKey]

theorem steps_coinciding : Steps (run copyingCrate (sampleConfig coincidingPath)).run
    coincidingTrace (.done (.error (.error .invalidSessionFile))) := by
  rw [run_run]
  refine .ask _ _ _ ?_
  rw [keyDecision_key]
  exact (returns_try_iff _ _ _ _).mpr (.inl ⟨_, rfl, returns_next_of_error rfl⟩)

def coincidingAttempt : Attempt Target.release64 where
  crate := copyingCrate
  config := sampleConfig coincidingPath
  trace := coincidingTrace
  rest := .done (.error (.error .invalidSessionFile))
  steps := steps_coinciding

def coincidingFiles : PathBuf → FileContents :=
  Function.update (fun _ => none) coincidingPath (some sampleKey.toList)

theorem run_footprint_coinciding :
    Footprint id coincidingAttempt coincidingFiles coincidingFiles := by
  have hread : FileStep id coincidingFiles (keyEvent coincidingPath sampleKey :
      Event Syscall (SysReply Target.release64)) coincidingFiles :=
    fileStep_read (Function.update_self _ _ _)
  exact run_footprint ⟨_, hread, _, hread, rfl⟩ fun htruncated => by
    simp [coincidingAttempt, coincidingTrace, Truncated, keyEvent] at htruncated

end Fiudp.Run
