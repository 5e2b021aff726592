import Fiudp.Run.Stages
import Fiudp.Session.Effects

/-!
# One run, complete or killed

What a run that may be killed anywhere does to the session file, which session id
it gets, and the keys and nonces it encrypts under.
-/

namespace Fiudp.Run

open ByteLayout Protocol Interaction Sender Session SessionIdStore Os

variable {target : Target}

/-- A run and how far it has got. -/
structure Attempt (target : Target) where
  crate : ReedSolomon
  config : Config
  trace : SysTrace target
  rest : Program Syscall (SysReply target) (Result Unit)
  steps : Steps (run crate config).run trace rest

namespace Attempt

section Observations

variable (attempt : Attempt target)

def store : SessionIdStore := .new attempt.config.keyPath

/-- What `SessionIdStore::next` has returned to the run: the first call of the run
is the read of the key, and the next ones are those of `next`. -/
def nextResult : Option (Result SessionId) :=
  ((attempt.store.next : Process target SessionId).run.resume attempt.trace.tail).value?

/-- The session id of the run, once it has one. -/
def sessionId : Option SessionId :=
  match attempt.nextResult with
  | some (.ok id) => some id
  | _ => none

/-- The nonces passed to `encrypt_in_place`. -/
def nonces : List Nonce := (sealings attempt.trace).map Prod.snd

end Observations

/-- The calls of a run: the read of the key, those of `next`, and those of the
transmission. -/
structure Course (attempt : Attempt target) where
  opening : SysTrace target
  session : SysTrace target
  transmission : SysTrace target
  middle : Remaining target
  trace_eq : attempt.trace = opening ++ (session ++ transmission)
  opening_reads : ∀ event ∈ opening, event.call = .read attempt.config.keyPath
  session_steps : Steps attempt.store.next.run session middle
  nextResult_eq : attempt.nextResult = middle.value?
  transmission_reads : ∀ event ∈ transmission, ¬ event.call.IsWrite
  sealed : transmission = [] ∨ ∃ key id, middle = .done (.ok id) ∧ ∃ count ≤ 65535,
    sealings transmission <+: (shardNonces id 0 count).map fun nonce => (key, nonce)

variable {attempt : Attempt target}

theorem course (attempt : Attempt target) : Nonempty (Course attempt) := by
  rcases steps_run attempt.steps with ⟨htrace, -⟩ | ⟨reply, tail, htrace, hcases⟩
  · exact ⟨{
      opening := []
      session := []
      transmission := []
      middle := attempt.store.next.run
      trace_eq := htrace
      opening_reads := by simp
      session_steps := .refl _
      nextResult_eq := by rw [nextResult, htrace, List.tail_nil, Program.resume_nil]
      transmission_reads := by simp
      sealed := .inl rfl }⟩
  · have hopening : ∀ event ∈ [(⟨.read attempt.config.keyPath, reply⟩ :
        Event Syscall (SysReply target))], event.call = .read attempt.config.keyPath := by
      simp
    rcases hcases with ⟨failure, -, rfl, -⟩ | ⟨key, -, hkey⟩
    · exact ⟨{
        opening := [⟨.read attempt.config.keyPath, reply⟩]
        session := []
        transmission := []
        middle := attempt.store.next.run
        trace_eq := htrace
        opening_reads := hopening
        session_steps := .refl _
        nextResult_eq := by rw [nextResult, htrace, List.tail_cons, Program.resume_nil]
        transmission_reads := by simp
        sealed := .inl rfl }⟩
    · rcases hkey with ⟨middle, hmiddle, -⟩ | ⟨first, second, id, rfl, hfirst, hsecond⟩
      · exact ⟨{
          opening := [⟨.read attempt.config.keyPath, reply⟩]
          session := tail
          transmission := []
          middle := middle.run
          trace_eq := by rw [htrace, List.append_nil]; rfl
          opening_reads := hopening
          session_steps := hmiddle
          nextResult_eq := by rw [nextResult, htrace, List.tail_cons, store, hmiddle.resume]
          transmission_reads := by simp
          sealed := .inl rfl }⟩
      · exact ⟨{
          opening := [⟨.read attempt.config.keyPath, reply⟩]
          session := first
          transmission := second
          middle := .done (.ok id)
          trace_eq := htrace
          opening_reads := hopening
          session_steps := hfirst
          nextResult_eq := by
            rw [nextResult, htrace, List.tail_cons, store, Steps.resume_append hfirst,
              Program.resume_done]
          transmission_reads := (hsecond.calls_allowed callsOnly_transmitFrame).1
          sealed := .inr ⟨key, id, rfl, sealings_transmitFrame hsecond⟩ }⟩

/-! ## The session file -/

theorem sessionId_eq_some_iff {id : SessionId} :
    attempt.sessionId = some id ↔ attempt.nextResult = some (.ok id) := by
  rw [sessionId]
  split <;> simp_all

/-- The run obtains the id its call of `next` returns. -/
theorem Course.sessionId_eq_some_iff (course : Course attempt) {id : SessionId} :
    attempt.sessionId = some id ↔ course.middle = .done (.ok id) := by
  rw [Attempt.sessionId_eq_some_iff, course.nextResult_eq, Program.value?_eq_some_iff]

section Node

variable {Node : Type} [DecidableEq Node] {locate : PathBuf → Node} {node : Node}
  {before after : FileContents}

/-- Of the calls of a run only those of `next` can change a file. -/
theorem Course.follows (course : Course attempt)
    (hfollows : Follows (NodeStep locate node) before attempt.trace after) :
    Follows (NodeStep locate node) before course.session after := by
  rw [course.trace_eq, follows_append_iff] at hfollows
  obtain ⟨opened, hopening, hrest⟩ := hfollows
  obtain ⟨middle, hsession, htransmission⟩ := (follows_append_iff _ _ _ _).mp hrest
  have hopened : opened = before := follows_of_not_writes hopening fun event hmem hwrites => by
    rw [course.opening_reads event hmem] at hwrites
    exact hwrites
  have hafter : after = middle := follows_of_not_writes htransmission fun event hmem hwrites =>
    course.transmission_reads event hmem hwrites.isWrite
  rwa [hopened, ← hafter] at hsession

/-- A run leaves its session file alone, or has replaced it by the beginning of the
next value; it obtains that value only if all of it was written. -/
theorem effect (hfollows : Follows (NodeStep locate (locate attempt.store.path)) before
      attempt.trace after) :
    (after = before ∧ attempt.sessionId = none) ∨
      ∃ value raw left, storedValue before = some value ∧ raw.toNat = value + 1 ∧
        left <+: (u16ToBeBytes raw).toList ∧ after = some left ∧
        ∀ id, attempt.sessionId = some id → id = ⟨raw⟩ ∧ left = (u16ToBeBytes raw).toList := by
  obtain ⟨course⟩ := attempt.course
  rcases next_effect course.session_steps (course.follows hfollows) with
    ⟨hsame, hnone⟩ | ⟨value, raw, left, hvalue, hraw, hleft, hafter, hid⟩
  · refine .inl ⟨hsame, Option.eq_none_iff_forall_ne_some.mpr fun id hid => ?_⟩
    exact hnone id (course.sessionId_eq_some_iff.mp hid)
  · exact .inr ⟨value, raw, left, hvalue, hraw, hleft, hafter,
      fun id hsome => hid id (course.sessionId_eq_some_iff.mp hsome)⟩

/-- A file that is not the session file of the run stays as it is. -/
theorem unchanged (hfollows : Follows (NodeStep locate node) before attempt.trace after)
    (hnode : locate attempt.store.path ≠ node) : after = before := by
  obtain ⟨course⟩ := attempt.course
  refine follows_of_not_writes (course.follows hfollows) fun event hmem hwrites => hnode ?_
  have hpath := (course.session_steps.calls_allowed (next_callsOnly _)).1 event hmem
  obtain ⟨call, reply⟩ := event
  cases call with
  | openTruncate path | writeByte path offset byte =>
      cases (hpath : path = attempt.store.path)
      exact hwrites
  | _ => exact hwrites.elim

/-- The rank of a file never decreases, and the id a run obtains from it lies between
the ranks before and after the run. -/
theorem rank_le (hfollows : Follows (NodeStep locate node) before attempt.trace after) :
    rank before ≤ rank after ∧
      (locate attempt.store.path = node → ∀ id, attempt.sessionId = some id →
        rank before < id.raw.toNat ∧ id.raw.toNat ≤ rank after) := by
  by_cases hnode : locate attempt.store.path = node
  · subst hnode
    rcases effect hfollows with
      ⟨rfl, hnone⟩ | ⟨value, raw, left, hvalue, hraw, hleft, rfl, hid⟩
    · rw [hnone]
      exact ⟨le_rfl, fun _ => nofun⟩
    · have hlt := raw.toNat_lt
      rw [rank_eq hvalue]
      have hfull : left = (u16ToBeBytes raw).toList → rank (some left) = raw.toNat := by
        rintro rfl
        exact rank_eq (storedValue_u16ToBeBytes raw)
      refine ⟨?_, fun _ id hsome => ?_⟩
      · by_cases hlength : left.length = 2
        · rw [hfull (hleft.eq_of_length (by rw [hlength, Bytes.length_toList]))]
          omega
        · rw [rank_of_length_ne hlength]
          omega
      · obtain ⟨rfl, hall⟩ := hid id hsome
        rw [hfull hall]
        exact ⟨hraw.symm ▸ Nat.lt_succ_self value, le_rfl⟩
  · rw [unchanged hfollows hnode]
    exact ⟨le_rfl, fun heq => absurd heq hnode⟩

/-- Past the last value a run obtains no id and writes to no file. -/
theorem exhausted (hfollows : Follows (NodeStep locate (locate attempt.store.path)) before
      attempt.trace after) (hrank : 65535 ≤ rank before) :
    attempt.sessionId = none ∧ ∀ event ∈ attempt.trace, ¬ event.call.IsWrite := by
  obtain ⟨course⟩ := attempt.course
  obtain ⟨hnone, hreads⟩ := next_exhausted course.session_steps (course.follows hfollows) hrank
  refine ⟨Option.eq_none_iff_forall_ne_some.mpr fun id hid => ?_, ?_⟩
  · exact hnone id (course.sessionId_eq_some_iff.mp hid)
  · rw [course.trace_eq]
    simp only [List.forall_mem_append]
    refine ⟨fun event hmem hwrite => ?_, fun event hmem hwrite => ?_, course.transmission_reads⟩
    · rw [course.opening_reads event hmem] at hwrite
      exact hwrite
    · rw [hreads event hmem] at hwrite
      exact hwrite

/-- A run that reports the overflow has found the last value. -/
theorem storedValue_of_overflow
    (hfollows : Follows (NodeStep locate (locate attempt.store.path)) before
      attempt.trace after)
    (hoverflow : attempt.nextResult = some (.error (.error .sessionIdOverflow))) :
    storedValue before = some 65535 := by
  obtain ⟨course⟩ := attempt.course
  rw [course.nextResult_eq, Program.value?_eq_some_iff] at hoverflow
  have hsteps := course.session_steps
  rw [hoverflow] at hsteps
  exact Session.storedValue_of_overflow hsteps (course.follows hfollows)

end Node

/-! ## Nonces -/

theorem sealings_of_fileCalls {trace : SysTrace target} {path : PathBuf}
    (htrace : ∀ event ∈ trace, FileCall path event.call) : sealings trace = [] := by
  rw [sealings, List.flatMap_eq_nil_iff]
  rintro ⟨call, reply⟩ hmem
  cases call with
  | encryptDetached => exact (htrace _ hmem).elim
  | _ => rfl

/-- What a run encrypts, it encrypts under one key and the nonces of the first shards
of its session id. -/
theorem sealings_leading (attempt : Attempt target) :
    sealings attempt.trace = [] ∨ ∃ key id, attempt.sessionId = some id ∧
      ∃ count ≤ 65535, sealings attempt.trace <+:
        (shardNonces id 0 count).map fun nonce => (key, nonce) := by
  obtain ⟨course⟩ := attempt.course
  have hopening : sealings course.opening = [] := by
    apply sealings_of_fileCalls
    intro event hmem
    rw [course.opening_reads event hmem]
    exact (rfl : attempt.config.keyPath = attempt.config.keyPath)
  have hsession : sealings course.session = [] :=
    sealings_of_fileCalls (course.session_steps.calls_allowed (next_callsOnly _)).1
  rw [course.trace_eq, sealings_append, sealings_append, hopening, hsession, List.nil_append,
    List.nil_append]
  rcases course.sealed with hempty | ⟨key, id, hdone, hleading⟩
  · rw [hempty]
    exact .inl rfl
  · exact .inr ⟨key, id, course.sessionId_eq_some_iff.mpr hdone, hleading⟩

/-- No nonce is used twice in a run. -/
theorem nodup_nonces (attempt : Attempt target) : attempt.nonces.Nodup := by
  rcases attempt.sealings_leading with hempty | ⟨key, id, -, count, hcount, hleading⟩
  · rw [nonces, hempty]
    exact List.nodup_nil
  · have hnonces := hleading.map Prod.snd
    rw [List.map_map, Function.comp_def, List.map_id'] at hnonces
    exact (nodup_shardNonces id (by omega)).sublist hnonces.sublist

/-- Every nonce of a run carries its session id. -/
theorem exists_of_mem_nonces {nonce : Nonce} (hmem : nonce ∈ attempt.nonces) :
    ∃ id shardIndex, attempt.sessionId = some id ∧ nonce = Crypto.deriveNonce id shardIndex := by
  rcases attempt.sealings_leading with hempty | ⟨key, id, hid, count, hcount, hleading⟩
  · rw [nonces, hempty] at hmem
    cases hmem
  · obtain ⟨pair, hpair, rfl⟩ := List.mem_map.mp hmem
    obtain ⟨used, hused, rfl⟩ := List.mem_map.mp (hleading.subset hpair)
    obtain ⟨position, -, rfl⟩ := List.mem_map.mp hused
    exact ⟨id, _, hid, rfl⟩

end Attempt

end Fiudp.Run
