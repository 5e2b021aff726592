import Fiudp.Session.Store

/-!
# What a call of `next` does to the session file

Every point a call can have reached, with the answers it received, what it has
left in the file and what remains to be done.
-/

namespace Fiudp.Session

open ByteLayout Interaction Os SessionIdStore

variable {target : Target}

/-! ## The value in the file -/

/-- The value the file stands for: zero if it is absent, none if it is malformed. -/
def storedValue : FileContents → Option ℕ
  | none => some 0
  | some bytes => if bytes.length = 2 then some (beValue bytes) else none

/-- A number that never decreases: a malformed file ranks above every value. -/
def rank (contents : FileContents) : ℕ := (storedValue contents).getD 65536

theorem storedValue_le {contents : FileContents} {value : ℕ}
    (hvalue : storedValue contents = some value) : value ≤ 65535 := by
  cases contents with
  | none =>
      cases hvalue
      exact Nat.zero_le _
  | some bytes =>
      have hlt := beValue_lt bytes
      rw [storedValue] at hvalue
      split at hvalue
      · rename_i hlength
        rw [hlength] at hlt
        cases hvalue
        omega
      · cases hvalue

theorem storedValue_u16ToBeBytes (raw : UInt16) :
    storedValue (some (u16ToBeBytes raw).toList) = some raw.toNat := by
  rw [storedValue, if_pos (Bytes.length_toList _)]
  exact congrArg some (beValue_beBytes raw.toNat_lt)

theorem rank_of_length_ne {bytes : List UInt8} (hlength : bytes.length ≠ 2) :
    rank (some bytes) = 65536 := by
  rw [rank, storedValue, if_neg hlength]
  rfl

theorem rank_eq {contents : FileContents} {value : ℕ}
    (hvalue : storedValue contents = some value) : rank contents = value := by
  rw [rank, hvalue]
  rfl

/-! ## The points of a call -/

section Store

variable (self : SessionIdStore)

/-- The calls after the read that a call of `next` has made so far, what remains,
and what it has left in the file (nothing before the truncation). -/
inductive Progress (raw : UInt16) :
    SysTrace target → Remaining target → Option (List UInt8) → Prop
  | untouched : Progress raw [] (self.truncate raw) none
  | openFailed (kind : ErrorKind) :
      Progress raw [⟨.openTruncate self.path, .error kind⟩] (self.writeFailed kind) none
  | truncated :
      Progress raw [⟨.openTruncate self.path, .ok ()⟩] (self.writeHigh raw) (some [])
  | highFailed (kind : ErrorKind) :
      Progress raw [⟨.openTruncate self.path, .ok ()⟩,
          ⟨.writeByte self.path 0 (highByte raw), .error kind⟩]
        (self.writeFailed kind) (some [])
  | highWritten :
      Progress raw [⟨.openTruncate self.path, .ok ()⟩,
          ⟨.writeByte self.path 0 (highByte raw), .ok ()⟩]
        (self.writeLow raw) (some [highByte raw])
  | lowFailed (kind : ErrorKind) :
      Progress raw [⟨.openTruncate self.path, .ok ()⟩,
          ⟨.writeByte self.path 0 (highByte raw), .ok ()⟩,
          ⟨.writeByte self.path 1 (lowByte raw), .error kind⟩]
        (self.writeFailed kind) (some [highByte raw])
  | persisted :
      Progress raw [⟨.openTruncate self.path, .ok ()⟩,
          ⟨.writeByte self.path 0 (highByte raw), .ok ()⟩,
          ⟨.writeByte self.path 1 (lowByte raw), .ok ()⟩]
        (.done (.ok ⟨raw⟩)) (some [highByte raw, lowByte raw])

variable {self}

theorem progress_of_writeLow {raw : UInt16} {trace : SysTrace target}
    {rest : Remaining target} (hsteps : Steps (self.writeLow raw) trace rest) :
    ∃ left, Progress self raw (⟨.openTruncate self.path, .ok ()⟩ ::
      ⟨.writeByte self.path 0 (highByte raw), .ok ()⟩ :: trace) rest left := by
  rcases (steps_ask_iff _ _ _ _).mp hsteps with ⟨rfl, rfl⟩ | ⟨reply, tail, rfl, htail⟩
  · exact ⟨_, .highWritten⟩
  · cases reply with
    | ok =>
        obtain ⟨rfl, rfl⟩ := (steps_done_iff _ _ _).mp htail
        exact ⟨_, .persisted⟩
    | error kind =>
        obtain ⟨rfl, rfl⟩ := (steps_done_iff _ _ _).mp htail
        exact ⟨_, .lowFailed kind⟩

theorem progress_of_writeHigh {raw : UInt16} {trace : SysTrace target}
    {rest : Remaining target} (hsteps : Steps (self.writeHigh raw) trace rest) :
    ∃ left, Progress self raw (⟨.openTruncate self.path, .ok ()⟩ :: trace) rest left := by
  rcases (steps_ask_iff _ _ _ _).mp hsteps with ⟨rfl, rfl⟩ | ⟨reply, tail, rfl, htail⟩
  · exact ⟨_, .truncated⟩
  · cases reply with
    | ok => exact progress_of_writeLow htail
    | error kind =>
        obtain ⟨rfl, rfl⟩ := (steps_done_iff _ _ _).mp htail
        exact ⟨_, .highFailed kind⟩

theorem progress_of_truncate {raw : UInt16} {trace : SysTrace target}
    {rest : Remaining target} (hsteps : Steps (self.truncate raw) trace rest) :
    ∃ left, Progress self raw trace rest left := by
  rcases (steps_ask_iff _ _ _ _).mp hsteps with ⟨rfl, rfl⟩ | ⟨reply, tail, rfl, htail⟩
  · exact ⟨_, .untouched⟩
  · cases reply with
    | ok => exact progress_of_writeHigh htail
    | error kind =>
        obtain ⟨rfl, rfl⟩ := (steps_done_iff _ _ _).mp htail
        exact ⟨_, .openFailed kind⟩

/-- A call that has been started is before its read, has failed at it, or has
decided on a value and is somewhere in persisting it. -/
theorem steps_next {trace : SysTrace target} {rest : Remaining target}
    (hsteps : Steps self.next.run trace rest) :
    (trace = [] ∧ rest = self.next.run) ∨
      ∃ reply tail, trace = ⟨.read self.path, reply⟩ :: tail ∧
        ((∃ failure, self.decision reply = .error failure ∧ tail = [] ∧
            rest = .done (.error failure)) ∨
          ∃ raw left, self.decision reply = .ok raw ∧ Progress self raw tail rest left) := by
  rw [next_run] at hsteps ⊢
  rcases (steps_ask_iff _ _ _ _).mp hsteps with hstart | ⟨reply, tail, rfl, htail⟩
  · exact .inl hstart
  · refine .inr ⟨reply, tail, rfl, ?_⟩
    cases hdecision : self.decision reply with
    | error failure =>
        rw [hdecision] at htail
        obtain ⟨rfl, rfl⟩ := (steps_done_iff _ _ _).mp htail
        exact .inl ⟨failure, rfl, rfl, rfl⟩
    | ok raw =>
        rw [hdecision] at htail
        obtain ⟨left, hprogress⟩ := progress_of_truncate htail
        exact .inr ⟨raw, left, rfl, hprogress⟩

/-- The file steps of a call that persists a value. -/
def persistTrace (store : SessionIdStore) (raw : UInt16) : SysTrace target :=
  [⟨.openTruncate store.path, .ok ()⟩, ⟨.writeByte store.path 0 (highByte raw), .ok ()⟩,
    ⟨.writeByte store.path 1 (lowByte raw), .ok ()⟩]

theorem returns_persistTrace (store : SessionIdStore) (raw : UInt16) :
    Returns (store.truncate raw : Remaining target) (persistTrace store raw) (.ok ⟨raw⟩) :=
  .ask _ _ _ (.ask _ _ _ (.ask _ _ _ (.refl _)))

theorem returns_next_of_ok {reply : Except ErrorKind (ByteVec target)} {raw : UInt16}
    (hdecision : self.decision reply = .ok raw) :
    Returns self.next.run (⟨.read self.path, reply⟩ :: persistTrace self raw) (.ok ⟨raw⟩) := by
  rw [next_run]
  refine .ask _ _ _ ?_
  rw [hdecision]
  exact returns_persistTrace self raw

theorem returns_next_of_error {reply : Except ErrorKind (ByteVec target)} {failure : Failure}
    (hdecision : self.decision reply = .error failure) :
    Returns self.next.run [⟨.read self.path, reply⟩] (.error failure) := by
  rw [next_run]
  refine .ask _ _ _ ?_
  rw [hdecision]
  exact .refl _

/-- The ways a call of `next` ends. -/
theorem returns_next {trace : SysTrace target} {result : Result SessionId}
    (hreturns : Returns self.next.run trace result) :
    ∃ reply tail, trace = ⟨.read self.path, reply⟩ :: tail ∧
      ((∃ failure, self.decision reply = .error failure ∧ tail = [] ∧
          result = .error failure) ∨
        ∃ raw, self.decision reply = .ok raw ∧
          ((∃ kind, result = .error (.error (.io (.writeSessionFile self.path) kind))) ∨
            (tail = persistTrace self raw ∧ result = .ok ⟨raw⟩))) := by
  rcases steps_next hreturns with ⟨-, hstart⟩ | ⟨reply, tail, rfl, hcases⟩
  · rw [next_run] at hstart
    cases hstart
  · refine ⟨reply, tail, rfl, ?_⟩
    rcases hcases with ⟨failure, hfailure, rfl, hdone⟩ | ⟨raw, left, hdecision, hprogress⟩
    · cases hdone
      exact .inl ⟨failure, hfailure, rfl, rfl⟩
    · refine .inr ⟨raw, hdecision, ?_⟩
      generalize hrest : (Program.done result : Remaining target) = rest at hprogress
      cases hprogress with
      | persisted =>
          cases hrest
          exact .inr ⟨rfl, rfl⟩
      | openFailed kind | highFailed kind | lowFailed kind =>
          cases hrest
          exact .inl ⟨kind, rfl⟩
      | untouched | truncated | highWritten => cases hrest

/-! ## The decision and the file -/

theorem toNat_checkedSucc {value next : UInt16} (hnext : checkedSucc value = some next) :
    next.toNat = value.toNat + 1 := by
  rw [checkedSucc] at hnext
  split at hnext
  · cases hnext
    have hone : (1 : UInt16).toNat = 1 := rfl
    rw [UInt16.toNat_add, hone]
    exact Nat.mod_eq_of_lt (by omega)
  · cases hnext

theorem checkedSucc_eq_none_iff (value : UInt16) :
    checkedSucc value = none ↔ value.toNat = 65535 := by
  have hlt := value.toNat_lt
  rw [checkedSucc]
  split
  · simp
    omega
  · simp
    omega

/-- The read of a file that holds a number gives that number. -/
theorem current_ok {bytes : ByteVec target} (hlength : bytes.val.length = 2) :
    self.current (.ok bytes) = .ok (some (u16FromBeBytes bytes.val)) := by
  rw [current, if_neg (not_not.mpr hlength)]

theorem current_malformed {bytes : ByteVec target} (hlength : bytes.val.length ≠ 2) :
    self.current (.ok bytes) = .error (.error .invalidSessionFile) := by
  rw [current, if_pos hlength]

theorem toNat_u16FromBeBytes {bytes : List UInt8} (hlength : bytes.length = 2) :
    (u16FromBeBytes bytes).toNat = beValue bytes := by
  have hlt := beValue_lt bytes
  rw [hlength] at hlt
  exact UInt16.toNat_ofNat_of_lt' hlt

variable (self) in
/-- What `next` decides, from the contents of the file it has read. -/
theorem decision_of_read {bytes : ByteVec target} (hlength : bytes.val.length = 2) :
    (beValue bytes.val = 65535 ∧
        self.decision (.ok bytes) = .error (.error .sessionIdOverflow)) ∨
      ∃ raw, self.decision (.ok bytes) = .ok raw ∧ raw.toNat = beValue bytes.val + 1 := by
  have hvalue := toNat_u16FromBeBytes hlength
  rw [decision_of_current_ok (current_ok hlength), nextRaw]
  cases hnext : checkedSucc (u16FromBeBytes bytes.val) with
  | none => exact .inl ⟨hvalue.symm.trans ((checkedSucc_eq_none_iff _).mp hnext), rfl⟩
  | some next => exact .inr ⟨next, rfl, by rw [toNat_checkedSucc hnext, hvalue]⟩

theorem decision_eq_ok {Node : Type} {locate : PathBuf → Node} {before : FileContents}
    {reply : Except ErrorKind (ByteVec target)} {raw : UInt16}
    (hdecision : self.decision reply = .ok raw)
    (hallows : NodeAllows locate (locate self.path) before ⟨.read self.path, reply⟩) :
    ∃ value, storedValue before = some value ∧ raw.toNat = value + 1 := by
  cases reply with
  | ok bytes =>
      by_cases hlength : bytes.val.length = 2
      · rcases decision_of_read self hlength with ⟨-, hfull⟩ | ⟨next, hok, hnext⟩
        · cases hfull.symm.trans hdecision
        · cases hok.symm.trans hdecision
          rw [hallows rfl, storedValue, if_pos hlength]
          exact ⟨_, rfl, hnext⟩
      · rw [decision_of_current_error (current_malformed hlength)] at hdecision
        cases hdecision
  | error kind =>
      cases kind with
      | notFound =>
          cases hdecision
          rw [hallows rfl]
          exact ⟨0, rfl, rfl⟩
      | other code => cases hdecision

theorem decision_eq_overflow {Node : Type} {locate : PathBuf → Node} {before : FileContents}
    {reply : Except ErrorKind (ByteVec target)}
    (hdecision : self.decision reply = .error (.error .sessionIdOverflow))
    (hallows : NodeAllows locate (locate self.path) before ⟨.read self.path, reply⟩) :
    storedValue before = some 65535 := by
  cases reply with
  | ok bytes =>
      by_cases hlength : bytes.val.length = 2
      · rcases decision_of_read self hlength with ⟨hfull, -⟩ | ⟨next, hok, -⟩
        · rw [hallows rfl, storedValue, if_pos hlength, hfull]
        · cases hok.symm.trans hdecision
      · rw [decision_of_current_error (current_malformed hlength)] at hdecision
        cases hdecision
  | error kind => cases kind <;> cases hdecision

/-! ## The file along a call -/

section Node

variable {Node : Type} [DecidableEq Node] {locate : PathBuf → Node}
  {before after : FileContents}

/-- What the call has left is what stands in the file. -/
theorem Progress.contents {raw : UInt16} {trace : SysTrace target}
    {rest : Remaining target} {left : Option (List UInt8)}
    (hprogress : Progress self raw trace rest left)
    (hfollows : Follows (NodeStep locate (locate self.path)) before trace after) :
    after = left.or before := by
  cases hprogress <;>
    simp_all [NodeStep, NodeAllows, nodeAfter, bytesAfter, overwrite]

theorem Progress.left_leading {raw : UInt16} {trace : SysTrace target}
    {rest : Remaining target} {left : List UInt8}
    (hprogress : Progress self raw trace rest (some left)) :
    left <+: (u16ToBeBytes raw).toList := by
  rw [toList_u16ToBeBytes]
  cases hprogress <;> simp

/-! ## One call, from the file it finds to the file it leaves -/

/-- A call leaves the file alone, or has replaced it by the beginning of the next
value; it returns the next value only after having written all of it. -/
theorem next_effect {trace : SysTrace target} {rest : Remaining target}
    (hsteps : Steps self.next.run trace rest)
    (hfollows : Follows (NodeStep locate (locate self.path)) before trace after) :
    (after = before ∧ ∀ id, rest ≠ .done (.ok id)) ∨
      ∃ value raw left, storedValue before = some value ∧ raw.toNat = value + 1 ∧
        left <+: (u16ToBeBytes raw).toList ∧ after = some left ∧
        ∀ id, rest = .done (.ok id) → id = ⟨raw⟩ ∧ left = (u16ToBeBytes raw).toList := by
  rcases steps_next hsteps with ⟨rfl, rfl⟩ | ⟨reply, tail, rfl, hcases⟩
  · refine .inl ⟨hfollows, fun id hdone => ?_⟩
    rw [next_run] at hdone
    cases hdone
  · obtain ⟨middle, ⟨hallows, hmiddle⟩, htail⟩ := hfollows
    have hsame : middle = before := hmiddle
    subst hsame
    rcases hcases with ⟨failure, -, rfl, rfl⟩ | ⟨raw, left, hdecision, hprogress⟩
    · exact .inl ⟨htail, nofun⟩
    · have hcontents := hprogress.contents htail
      obtain ⟨value, hvalue, hraw⟩ := decision_eq_ok hdecision hallows
      cases left with
      | none =>
          refine .inl ⟨hcontents, ?_⟩
          cases hprogress <;> exact nofun
      | some left =>
          refine .inr ⟨value, raw, left, hvalue, hraw, hprogress.left_leading, hcontents, ?_⟩
          cases hprogress with
          | persisted =>
              intro id hdone
              cases hdone
              exact ⟨rfl, rfl⟩
          | _ => exact nofun

/-- On a file past its last value nothing is written. -/
theorem next_exhausted {trace : SysTrace target} {rest : Remaining target}
    (hsteps : Steps self.next.run trace rest)
    (hfollows : Follows (NodeStep locate (locate self.path)) before trace after)
    (hrank : 65535 ≤ rank before) :
    (∀ id, rest ≠ .done (.ok id)) ∧ ∀ event ∈ trace, event.call = .read self.path := by
  rcases steps_next hsteps with ⟨rfl, rfl⟩ | ⟨reply, tail, rfl, hcases⟩
  · refine ⟨fun id hdone => ?_, by simp⟩
    rw [next_run] at hdone
    cases hdone
  · obtain ⟨middle, ⟨hallows, -⟩, -⟩ := hfollows
    rcases hcases with ⟨failure, -, rfl, rfl⟩ | ⟨raw, left, hdecision, -⟩
    · exact ⟨nofun, by simp⟩
    · obtain ⟨value, hvalue, hraw⟩ := decision_eq_ok hdecision hallows
      have hlt := raw.toNat_lt
      rw [rank_eq hvalue] at hrank
      omega

/-- A call that reports the overflow has found the last value. -/
theorem storedValue_of_overflow {trace : SysTrace target}
    (hreturns : Returns self.next.run trace (.error (.error .sessionIdOverflow)))
    (hfollows : Follows (NodeStep locate (locate self.path)) before trace after) :
    storedValue before = some 65535 := by
  rcases steps_next hreturns with ⟨-, hstart⟩ | ⟨reply, tail, rfl, hcases⟩
  · rw [next_run] at hstart
    cases hstart
  · obtain ⟨middle, ⟨hallows, -⟩, -⟩ := hfollows
    rcases hcases with ⟨failure, hfailure, -, hdone⟩ | ⟨raw, left, -, hprogress⟩
    · cases hdone
      exact decision_eq_overflow hfailure hallows
    · generalize hrest : (Program.done (.error (.error .sessionIdOverflow)) :
        Remaining target) = rest at hprogress
      cases hprogress <;> cases hrest

end Node

end Store

end Fiudp.Session
