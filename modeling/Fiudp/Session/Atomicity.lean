import Fiudp.Session.Effects

/-!
# Failures inside a call of `next`

A call may be killed, or one of its file steps may fail, at any point.  Its
effect is all or nothing exactly if that point is not between the truncation of
the file and the second of the two bytes.
-/

namespace Fiudp.Session

open ByteLayout Interaction Os SessionIdStore

variable {target : Target}

/-- No file step fails, except that a file may be absent. -/
def Undisturbed : Event Syscall (SysReply target) → Prop
  | ⟨.read _, .error kind⟩ => kind = .notFound
  | ⟨.openTruncate _, reply⟩ => reply = .ok ()
  | ⟨.writeByte _ _ _, reply⟩ => reply = .ok ()
  | _ => True

section Undisturbed

variable {Node : Type} [DecidableEq Node] {locate : PathBuf → Node} {self : SessionIdStore}
  {before after : FileContents}

omit [DecidableEq Node] in
/-- An undisturbed read of a file that is not malformed stops the call only at the
last value. -/
theorem decision_of_undisturbed {reply : Except ErrorKind (ByteVec target)} {value : ℕ}
    (hvalue : storedValue before = some value)
    (hallows : NodeAllows locate (locate self.path) before ⟨.read self.path, reply⟩)
    (hundisturbed : Undisturbed (⟨.read self.path, reply⟩ : Event Syscall (SysReply target))) :
    (value = 65535 ∧ self.decision reply = .error (.error .sessionIdOverflow)) ∨
      ∃ raw, self.decision reply = .ok raw ∧ raw.toNat = value + 1 := by
  cases reply with
  | ok bytes =>
      rw [hallows rfl, storedValue] at hvalue
      split at hvalue
      · rename_i hlength
        cases hvalue
        exact decision_of_read self hlength
      · cases hvalue
  | error kind =>
      cases hundisturbed
      rw [hallows rfl] at hvalue
      cases hvalue
      exact .inr ⟨1, rfl, rfl⟩

/-- An undisturbed call succeeds, or reports the overflow, on every file that is
not malformed. -/
theorem next_of_undisturbed {trace : SysTrace target} {result : Result SessionId} {value : ℕ}
    (hvalue : storedValue before = some value)
    (hreturns : Returns self.next.run trace result)
    (hfollows : Follows (NodeStep locate (locate self.path)) before trace after)
    (hundisturbed : ∀ event ∈ trace, Undisturbed event) :
    (value = 65535 ∧ after = before ∧ result = .error (.error .sessionIdOverflow)) ∨
      ∃ raw, raw.toNat = value + 1 ∧ after = some (u16ToBeBytes raw).toList ∧
        result = .ok ⟨raw⟩ := by
  rcases steps_next hreturns with ⟨-, hstart⟩ | ⟨reply, tail, rfl, hcases⟩
  · rw [next_run] at hstart
    cases hstart
  · obtain ⟨middle, ⟨hallows, hmiddle⟩, htail⟩ := hfollows
    have hsame : middle = before := hmiddle
    subst hsame
    simp only [List.forall_mem_cons] at hundisturbed
    rcases decision_of_undisturbed hvalue hallows hundisturbed.1 with
      ⟨hfull, hoverflow⟩ | ⟨raw, hok, hraw⟩
    · rcases hcases with ⟨failure, hfailure, rfl, hdone⟩ | ⟨raw, left, hraw, -⟩
      · cases hdone
        cases hfailure.symm.trans hoverflow
        exact .inl ⟨hfull, htail, rfl⟩
      · cases hraw.symm.trans hoverflow
    · rcases hcases with ⟨failure, hfailure, -, -⟩ | ⟨next, left, hnext, hprogress⟩
      · cases hfailure.symm.trans hok
      · cases hnext.symm.trans hok
        have hcontents := hprogress.contents htail
        have hfailures := hundisturbed.2
        generalize hrest : Program.done result = rest at hprogress
        cases hprogress with
        | persisted =>
            cases hrest
            exact .inr ⟨raw, hraw, hcontents, rfl⟩
        | openFailed kind => simp [Undisturbed] at hfailures
        | highFailed kind => simp [Undisturbed] at hfailures
        | lowFailed kind => simp [Undisturbed] at hfailures
        | untouched | truncated | highWritten => cases hrest

end Undisturbed

/-! ## All or nothing -/

section Atomic

variable (self : SessionIdStore)

/-- The file has been truncated (or created). -/
def Truncated (trace : SysTrace target) : Prop :=
  ⟨.openTruncate self.path, .ok ()⟩ ∈ trace

/-- The number of bytes that have been written. -/
def bytesLanded : SysTrace target → ℕ
  | [] => 0
  | ⟨.writeByte _ _ _, .ok ()⟩ :: trace => bytesLanded trace + 1
  | _ :: trace => bytesLanded trace

/-- The file is as before the call or holds the next value, and a later
undisturbed call succeeds or reports the overflow. -/
structure Atomic {Node : Type} [DecidableEq Node] (target : Target)
    (store : SessionIdStore) (locate : PathBuf → Node) (before after : FileContents) : Prop where
  old_or_new : after = before ∨ ∃ value raw, storedValue before = some value ∧
    raw.toNat = value + 1 ∧ after = some (u16ToBeBytes raw).toList
  later_call : ∀ (trace : SysTrace target) (result : Result SessionId) (last : FileContents),
    Returns store.next.run trace result →
    Follows (NodeStep locate (locate store.path)) after trace last →
    (∀ event ∈ trace, Undisturbed event) →
      (∃ id, result = .ok id) ∨ result = .error (.error .sessionIdOverflow)

variable {self} {Node : Type} [DecidableEq Node] {locate : PathBuf → Node}
  {before after : FileContents}

/-- The file is untouched, or short of a byte that has not landed, or complete. -/
theorem Progress.landed {raw : UInt16} {trace : SysTrace target} {rest : Remaining target}
    {left : Option (List UInt8)} (hprogress : Progress self raw trace rest left) :
    (left = none ∧ ¬ Truncated self trace) ∨
      (∃ bytes, left = some bytes ∧ bytes.length < 2 ∧ Truncated self trace ∧
        bytesLanded trace < 2) ∨
      (left = some (u16ToBeBytes raw).toList ∧ bytesLanded trace = 2) := by
  cases hprogress with
  | untouched => exact .inl ⟨rfl, by simp [Truncated]⟩
  | openFailed kind => exact .inl ⟨rfl, by simp [Truncated]⟩
  | truncated | highFailed kind | highWritten | lowFailed kind =>
      exact .inr (.inl ⟨_, rfl, by simp, List.mem_cons_self, by simp [bytesLanded]⟩)
  | persisted => exact .inr (.inr ⟨rfl, rfl⟩)

/-- Files that are not malformed are all that matters to a later call. -/
theorem atomic_of_storedValue (hafter : storedValue after ≠ none)
    (hchange : after = before ∨ ∃ value raw, storedValue before = some value ∧
      raw.toNat = value + 1 ∧ after = some (u16ToBeBytes raw).toList) :
    Atomic target self locate before after where
  old_or_new := hchange
  later_call trace result last hreturns hfollows hundisturbed := by
    obtain ⟨value, hvalue⟩ := Option.ne_none_iff_exists'.mp hafter
    rcases next_of_undisturbed hvalue hreturns hfollows hundisturbed with
      ⟨-, -, hoverflow⟩ | ⟨raw, -, -, hok⟩
    · exact .inr hoverflow
    · exact .inl ⟨_, hok⟩

/-- A file that has lost a byte is neither the old one nor the new one. -/
theorem not_atomic_of_short {left : List UInt8} (hbefore : storedValue before ≠ none)
    (hleft : left.length < 2) : ¬ Atomic target self locate before (some left) := by
  intro hatomic
  rcases hatomic.old_or_new with hsame | ⟨value, raw, -, -, hnew⟩
  · rw [← hsame, storedValue, if_neg hleft.ne] at hbefore
    exact hbefore rfl
  · rw [Option.some.inj hnew, Bytes.length_toList] at hleft
    exact absurd hleft (lt_irrefl 2)

/-- A call interrupted or failing anywhere is atomic exactly if it does not stop
between the truncation and the second byte. -/
theorem next_atomic_iff {trace : SysTrace target} {rest : Remaining target}
    (hbefore : storedValue before ≠ none) (hsteps : Steps self.next.run trace rest)
    (hfollows : Follows (NodeStep locate (locate self.path)) before trace after) :
    Atomic target self locate before after ↔
      (Truncated self trace → bytesLanded trace = 2) := by
  have hsame : Atomic target self locate before before :=
    atomic_of_storedValue hbefore (.inl rfl)
  rcases steps_next hsteps with ⟨rfl, -⟩ | ⟨reply, tail, rfl, hcases⟩
  · cases hfollows
    exact iff_of_true hsame (fun htruncated => absurd htruncated List.not_mem_nil)
  · obtain ⟨middle, ⟨hallows, hmiddle⟩, htail⟩ := hfollows
    cases (hmiddle : middle = before)
    rcases hcases with ⟨failure, -, rfl, -⟩ | ⟨raw, left, hdecision, hprogress⟩
    · cases htail
      exact iff_of_true hsame (by simp [Truncated])
    · obtain ⟨value, hvalue, hraw⟩ := decision_eq_ok hdecision hallows
      have hcontents := hprogress.contents htail
      have htruncated : Truncated self (⟨.read self.path, reply⟩ :: tail) ↔
          Truncated self tail := by simp [Truncated]
      subst hcontents
      rcases hprogress.landed with ⟨rfl, hnever⟩ | ⟨bytes, rfl, hshort, hopened, hlanded⟩ |
        ⟨rfl, hlanded⟩
      · exact iff_of_true hsame fun hopened => absurd (htruncated.mp hopened) hnever
      · refine iff_of_false (not_atomic_of_short hbefore hshort) fun hwhole => ?_
        exact hlanded.ne (hwhole (htruncated.mpr hopened))
      · refine iff_of_true (atomic_of_storedValue ?_ ?_) fun _ => hlanded
        · change storedValue (some (u16ToBeBytes raw).toList) ≠ none
          rw [storedValue_u16ToBeBytes]
          exact Option.some_ne_none _
        · exact .inr ⟨value, raw, hvalue, hraw, rfl⟩

end Atomic

/-! ## A call killed right after the truncation -/

def sampleStore : SessionIdStore := .new ⟨"./psk.bin".toList⟩

/-- The file holds 5, is truncated, and the process is killed. -/
def killedTrace : SysTrace Target.release64 :=
  [⟨.read sampleStore.path, .ok ⟨[0, 5], by decide⟩⟩, ⟨.openTruncate sampleStore.path, .ok ()⟩]

/-- The read of a later call. -/
def laterTrace : SysTrace Target.release64 :=
  [⟨.read sampleStore.path, .ok ⟨[], by decide⟩⟩]

theorem steps_killedTrace :
    Steps sampleStore.next.run killedTrace (sampleStore.writeHigh 6) := by
  rw [next_run]
  exact .ask _ _ _ (.ask _ _ _ (.refl _))

theorem follows_killedTrace :
    Follows (NodeStep id sampleStore.path) (some [0, 5]) killedTrace (some []) :=
  ⟨some [0, 5], ⟨fun _ => rfl, rfl⟩, some [], ⟨trivial, rfl⟩, rfl⟩

theorem next_atomic_iff_killed :
    Atomic Target.release64 sampleStore id (some [0, 5]) (some []) ↔
      (Truncated sampleStore killedTrace → bytesLanded killedTrace = 2) :=
  next_atomic_iff (by decide) steps_killedTrace follows_killedTrace

/-- A call killed after the truncation leaves an empty file, on which a later call
that nothing disturbs returns `InvalidSessionFile`. -/
theorem next_locked_out :
    Steps sampleStore.next.run killedTrace (sampleStore.writeHigh 6) ∧
      Follows (NodeStep id sampleStore.path) (some [0, 5]) killedTrace (some []) ∧
      Returns sampleStore.next.run laterTrace (.error (.error .invalidSessionFile)) ∧
      Follows (NodeStep id sampleStore.path) (some []) laterTrace (some []) ∧
      ∀ event ∈ laterTrace, Undisturbed event := by
  refine ⟨steps_killedTrace, follows_killedTrace, ?_, ?_, ?_⟩
  · rw [next_run]
    exact .ask _ _ _ (.refl _)
  · exact ⟨some [], ⟨fun _ => rfl, rfl⟩, rfl⟩
  · simp [laterTrace, Undisturbed]

end Fiudp.Session
