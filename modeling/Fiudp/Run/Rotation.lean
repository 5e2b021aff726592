import Fiudp.Run.Rejection

/-!
# Rotating the key

The operator is told to replace the key once the counter is used up.  The counter is
kept beside the key file and not with the key, so a new key finds it used up.
-/

namespace Fiudp.Run

open ByteLayout Protocol Interaction Sender Session SessionIdStore Os

variable {target : Target}

section Outcome

variable {Node : Type} [DecidableEq Node] {locate : PathBuf → Node}
  {files after : Node → FileContents} {key : Key} {value : ℕ} {attempt : Attempt target}
  {result : Result Unit}

omit [DecidableEq Node] in
/-- An undisturbed read of a key file with a key gives that key. -/
theorem keyDecision_of_undisturbed {path : PathBuf}
    {reply : Except ErrorKind (ByteVec target)}
    (hkey : files (locate path) = some key.toList)
    (hallows : NodeAllows locate (locate path) (files (locate path)) ⟨.read path, reply⟩)
    (hundisturbed : Undisturbed (⟨.read path, reply⟩ : Event Syscall (SysReply target))) :
    keyDecision path reply = .ok key := by
  cases reply with
  | error kind =>
      cases hundisturbed
      cases hkey.symm.trans (hallows rfl)
  | ok bytes =>
      have hbytes : key.toList = bytes.val := Option.some.inj (hkey.symm.trans (hallows rfl))
      obtain ⟨bytes, hlength⟩ := bytes
      cases hbytes
      exact keyDecision_key path key

/-- What an undisturbed run makes of the value it finds: it reports the overflow at
the last value, and persists and obtains the next one at every other. -/
theorem Completes.outcome (hcompletes : Completes locate files attempt result after)
    (hready : Ready locate files attempt.config.keyPath key value) :
    (value = 65535 ∧ result = .error (.error .sessionIdOverflow) ∧ attempt.sessionId = none ∧
        after (locate attempt.store.path) = files (locate attempt.store.path)) ∨
      ∃ raw, raw.toNat = value + 1 ∧ result ≠ .error (.error .sessionIdOverflow) ∧
        attempt.sessionId = some ⟨raw⟩ ∧
        after (locate attempt.store.path) = some (u16ToBeBytes raw).toList := by
  obtain ⟨crate, config, trace, rest, hsteps⟩ := attempt
  obtain ⟨rfl, hfollows, hundisturbed⟩ := hcompletes
  obtain ⟨reply, tail, rfl, hcases⟩ := returns_run hsteps
  obtain ⟨keyMiddle, hkeyRead, -⟩ := follows_node hfollows (locate config.keyPath)
  obtain ⟨middle, ⟨-, hmiddle⟩, htail⟩ :=
    follows_node hfollows (locate (SessionIdStore.new config.keyPath).path)
  cases (hmiddle : middle = files (locate (SessionIdStore.new config.keyPath).path))
  obtain ⟨hkeyUndisturbed, htailUndisturbed⟩ := List.forall_mem_cons.mp hundisturbed
  have hkey := keyDecision_of_undisturbed hready.key_eq hkeyRead.1 hkeyUndisturbed
  rcases hcases with ⟨failure, hfailure, -, -⟩ | ⟨other, -, hcases⟩
  · cases hfailure.symm.trans hkey
  rcases hcases with ⟨failure, rfl, hnext⟩ | ⟨first, second, id, rfl, hnext, hsend⟩
  · rcases next_of_undisturbed hready.value_eq hnext htail htailUndisturbed with
      ⟨hfull, hsame, hoverflow⟩ | ⟨raw, -, -, hok⟩
    · cases hoverflow
      refine .inl ⟨hfull, rfl, ?_, hsame⟩
      rw [Attempt.sessionId, Attempt.nextResult, List.tail_cons, Attempt.store, hnext.resume]
      rfl
    · cases hok
  · obtain ⟨persisted, hfirst, hsecond⟩ := (follows_append_iff _ _ _ _).mp htail
    have hsame := follows_of_not_writes hsecond fun event hmem hwrites =>
      (Steps.calls_allowed hsend callsOnly_transmitFrame).1 event hmem hwrites.isWrite
    subst hsame
    rcases next_of_undisturbed hready.value_eq hnext hfirst
        (List.forall_mem_append.mp htailUndisturbed).1 with
      ⟨-, -, hoverflow⟩ | ⟨raw, hraw, hafter, hok⟩
    · cases hoverflow
    · cases hok
      refine .inr ⟨raw, hraw, ?_, ?_, hafter⟩
      · rintro rfl
        rcases returns_transmitFrame hsend with ⟨answer, -, hverdict⟩ | htransmission
        · exact inputError_of_verdict hverdict
        · exact htransmission
      · rw [Attempt.sessionId_eq_some_iff, Attempt.nextResult, List.tail_cons, Attempt.store,
          Steps.resume_append hnext, Program.resume_done]
        rfl

end Outcome

/-! ## The life of a deployment -/

/-- The files, the keys that have been in place, what the session file held when the
present key was put in place, and the number of session ids persisted since. -/
structure Deployment (Node : Type) where
  files : Node → FileContents
  usedKeys : List Key
  found : FileContents
  persisted : ℕ

/-- A run, and the deployment it starts from. -/
structure Turn (Node : Type) (target : Target) where
  deployment : Deployment Node
  attempt : Attempt target

section Life

variable {Node : Type} [DecidableEq Node] (locate : PathBuf → Node) (keyPath : PathBuf)

namespace Deployment

/-- A key, and no session file. -/
def initial (files : Node → FileContents) (key : Key) : Deployment Node :=
  ⟨files, [key], none, 0⟩

/-- After a run that has left these files. -/
def afterRun (deployment : Deployment Node) (attempt : Attempt target)
    (after : Node → FileContents) : Deployment Node :=
  { deployment with
    files := after
    persisted := deployment.persisted + attempt.sessionId.isSome.toNat }

/-- The bytes of the key file are replaced by another key. -/
def rotate (deployment : Deployment Node) (key : Key) : Deployment Node where
  files := Function.update deployment.files (locate keyPath) (some key.toList)
  usedKeys := key :: deployment.usedKeys
  found := deployment.files (locate (SessionIdStore.new keyPath).path)
  persisted := 0

end Deployment

/-- The uninterrupted runs so far, latest first, and the deployment they have led to,
with rotations in between. -/
inductive Life : List (Turn Node target) → Deployment Node → Prop
  | start (files : Node → FileContents) (key : Key) :
      files (locate keyPath) = some key.toList →
      files (locate (SessionIdStore.new keyPath).path) = none →
        Life [] (.initial files key)
  | run {turns : List (Turn Node target)} {deployment : Deployment Node}
      {attempt : Attempt target} {result : Result Unit} {after : Node → FileContents} :
      Life turns deployment → attempt.config.keyPath = keyPath →
      Completes locate deployment.files attempt result after →
        Life (⟨deployment, attempt⟩ :: turns) (deployment.afterRun attempt after)
  | rotate {turns : List (Turn Node target)} {deployment : Deployment Node} (key : Key) :
      Life turns deployment → key ∉ deployment.usedKeys →
        Life turns (deployment.rotate locate keyPath key)

/-- The run reports the overflow only after 65535 session ids under the key in place,
and obtains one as long as there have been fewer. -/
structure Turn.Served (turn : Turn Node target) : Prop where
  exhausted : turn.attempt.rest = .done (.error (.error .sessionIdOverflow)) →
    turn.deployment.persisted = 65535
  obtains : turn.deployment.persisted < 65535 → ∃ id, turn.attempt.sessionId = some id

/-- The session file goes on from where it stood when the present key was put in
place; it stands at zero only while it is absent. -/
def Deployment.Balanced (deployment : Deployment Node) : Prop :=
  ∃ key earlier, storedValue deployment.found = some earlier ∧
    (earlier = 0 → deployment.found = none) ∧
    Ready locate deployment.files keyPath key (earlier + deployment.persisted) ∧
    (earlier + deployment.persisted = 0 →
      deployment.files (locate (SessionIdStore.new keyPath).path) = none)

variable {locate keyPath} {deployment : Deployment Node}

omit [DecidableEq Node] in
theorem Deployment.balanced_initial {files : Node → FileContents} {key : Key}
    (hkey : files (locate keyPath) = some key.toList)
    (habsent : files (locate (SessionIdStore.new keyPath).path) = none) :
    (Deployment.initial files key).Balanced locate keyPath := by
  refine ⟨key, 0, rfl, fun _ => rfl, ⟨hkey, ?_, ?_⟩, fun _ => habsent⟩
  · change storedValue (files _) = _
    rw [habsent]
    rfl
  · intro hsame
    rw [hsame, habsent] at hkey
    cases hkey

theorem Deployment.Balanced.afterRun {attempt : Attempt target} {result : Result Unit}
    {after : Node → FileContents} (hbalanced : deployment.Balanced locate keyPath)
    (hkeyPath : attempt.config.keyPath = keyPath)
    (hcompletes : Completes locate deployment.files attempt result after) :
    (deployment.afterRun attempt after).Balanced locate keyPath := by
  subst hkeyPath
  obtain ⟨key, earlier, hfound, hzero, hready, habsent⟩ := hbalanced
  have hkey : after (locate attempt.config.keyPath) = some key.toList :=
    (Attempt.unchanged (follows_node hcompletes.follows _) hready.apart.symm).trans hready.key_eq
  rcases hcompletes.outcome hready with
    ⟨-, -, hnone, hsame⟩ | ⟨raw, hraw, -, hsome, hafter⟩
  · have hpersisted : (deployment.afterRun attempt after).persisted = deployment.persisted := by
      rw [Deployment.afterRun, hnone]
      rfl
    refine ⟨key, earlier, hfound, hzero, ⟨hkey, ?_, hready.apart⟩, ?_⟩
    · rw [hpersisted, ← hready.value_eq]
      exact congrArg storedValue hsame
    · rw [hpersisted]
      exact fun hsum => hsame.trans (habsent hsum)
  · have hpersisted : earlier + (deployment.afterRun attempt after).persisted = raw.toNat := by
      rw [Deployment.afterRun, hsome, hraw]
      rfl
    refine ⟨key, earlier, hfound, hzero, ⟨hkey, ?_, hready.apart⟩, ?_⟩
    · rw [hpersisted, ← storedValue_u16ToBeBytes]
      exact congrArg storedValue hafter
    · rw [hpersisted]
      omega

theorem Deployment.Balanced.rotate (hbalanced : deployment.Balanced locate keyPath) (key : Key) :
    (deployment.rotate locate keyPath key).Balanced locate keyPath := by
  obtain ⟨previous, earlier, -, -, hready, habsent⟩ := hbalanced
  refine ⟨key, earlier + deployment.persisted, hready.value_eq, habsent, hready.rotate key, ?_⟩
  intro hzero
  exact (Function.update_of_ne hready.apart.symm _ _).trans (habsent hzero)

theorem Life.balanced {turns : List (Turn Node target)}
    (hlife : Life locate keyPath turns deployment) :
    deployment.Balanced locate keyPath ∧
      ∀ turn ∈ turns, turn.deployment.Balanced locate keyPath ∧
        turn.attempt.config.keyPath = keyPath ∧
        ∃ result after, Completes locate turn.deployment.files turn.attempt result after := by
  induction hlife with
  | start files key hkey habsent => exact ⟨Deployment.balanced_initial hkey habsent, by simp⟩
  | run _ hkeyPath hcompletes ih =>
      exact ⟨ih.1.afterRun hkeyPath hcompletes,
        List.forall_mem_cons.mpr ⟨⟨ih.1, hkeyPath, _, _, hcompletes⟩, ih.2⟩⟩
  | rotate key _ _ ih => exact ⟨ih.1.rotate key, ih.2⟩

/-- A run is served exactly if it does not find the counter used up, or finds it used
up under a key that has been there from the start of the count. -/
theorem Turn.served_iff {turn : Turn Node target} {result : Result Unit}
    {after : Node → FileContents} (hbalanced : turn.deployment.Balanced locate keyPath)
    (hkeyPath : turn.attempt.config.keyPath = keyPath)
    (hcompletes : Completes locate turn.deployment.files turn.attempt result after) :
    turn.Served ↔
      (storedValue (turn.deployment.files (locate (SessionIdStore.new keyPath).path)) =
        some 65535 → turn.deployment.found = none) := by
  subst hkeyPath
  obtain ⟨key, earlier, hfound, hzero, hready, -⟩ := hbalanced
  have hvalue := hready.value_eq
  have hbound := storedValue_le hvalue
  rcases hcompletes.outcome hready with
    ⟨hfull, rfl, hnone, -⟩ | ⟨raw, hraw, hresult, hsome, -⟩
  · constructor
    · intro hserved _
      have hpersisted := hserved.exhausted hcompletes.rest_eq
      exact hzero (by omega)
    · intro hfirst
      have hnever := hfirst (hvalue.trans (congrArg some hfull))
      rw [hnever] at hfound
      cases hfound
      exact ⟨fun _ => by omega, fun hfew => by omega⟩
  · have hlt := raw.toNat_lt
    constructor
    · intro _ hlast
      have hsame := Option.some.inj (hvalue.symm.trans hlast)
      omega
    · intro _
      refine ⟨fun hoverflow => ?_, fun _ => ⟨_, hsome⟩⟩
      have hsame := hcompletes.rest_eq.symm.trans hoverflow
      cases hsame
      exact absurd rfl hresult

/-- In every life of a deployment: all runs are served exactly if none of them finds
the counter used up under a key that was put in place beside a session file. -/
theorem life_served_iff {turns : List (Turn Node target)}
    (hlife : Life locate keyPath turns deployment) :
    (∀ turn ∈ turns, turn.Served) ↔ ∀ turn ∈ turns,
      storedValue (turn.deployment.files (locate (SessionIdStore.new keyPath).path)) =
        some 65535 → turn.deployment.found = none := by
  refine forall₂_congr fun turn hmem => ?_
  obtain ⟨hbalanced, hkeyPath, result, after, hcompletes⟩ := hlife.balanced.2 turn hmem
  exact Turn.served_iff hbalanced hkeyPath hcompletes

end Life

/-! ## A used-up counter and a new key -/

section Sample

/-- A life of as many successful runs as there are session ids to use. -/
theorem exists_life {count : ℕ} (hcount : count ≤ 65535) :
    ∃ (turns : List (Turn PathBuf Target.release64)) (deployment : Deployment PathBuf),
      Life id sampleKeyPath turns deployment ∧ turns.length = count ∧
      deployment.usedKeys = [sampleKey] ∧ deployment.persisted = count ∧
      Ready id deployment.files sampleKeyPath sampleKey count := by
  induction count with
  | zero =>
      exact ⟨[], .initial sampleFiles sampleKey,
        .start _ _ ready_sampleFiles.key_eq sampleFiles_session, rfl, rfl, rfl, ready_sampleFiles⟩
  | succ count ih =>
      obtain ⟨turns, deployment, hlife, hlength, hkeys, hpersisted, hready⟩ := ih (by omega)
      obtain ⟨attempt, raw, hconfig, hraw, hid, hrun, -⟩ := hready.exists_sample (by omega)
      refine ⟨_, _, .run hlife (by rw [hconfig]; rfl) hrun, by simp [hlength], hkeys, ?_, ?_⟩
      · rw [Deployment.afterRun, hid, hpersisted]
        rfl
      · rw [← hraw]
        exact hready.persist raw

def rotatedKey : Key := ⟨List.replicate 32 1, by decide⟩

/-- A life in which the counter is used up, the key is rotated, and one more run is made. -/
theorem exists_rotatedLife :
    ∃ (turns : List (Turn PathBuf Target.release64)) (deployment : Deployment PathBuf)
      (turn : Turn PathBuf Target.release64), Life id sampleKeyPath turns deployment ∧
      turn ∈ turns ∧ turn.deployment.usedKeys = [rotatedKey, sampleKey] ∧
      turn.deployment.persisted = 0 ∧ turn.attempt.sessionId = none ∧
      turn.attempt.rest = .done (.error (.error .sessionIdOverflow)) := by
  obtain ⟨turns, deployment, hlife, -, hkeys, hpersisted, hready⟩ := exists_life le_rfl
  obtain ⟨first, hfirst, hfirstId, hfirstRun⟩ : ∃ attempt : Attempt Target.release64,
      attempt.config = sampleConfig sampleKeyPath ∧ _ := exists_overflow copyingCrate hready
  have hoverflow := hlife.run (congrArg Config.keyPath hfirst) hfirstRun
  have hrotated := hoverflow.rotate rotatedKey (by
    change rotatedKey ∉ deployment.usedKeys
    rw [hkeys]
    decide)
  obtain ⟨second, hsecond, hsecondId, hsecondRun⟩ : ∃ attempt : Attempt Target.release64,
      attempt.config = sampleConfig sampleKeyPath ∧ _ :=
    exists_overflow copyingCrate (hready.rotate rotatedKey)
  exact ⟨_, _, _, hrotated.run (congrArg Config.keyPath hsecond) hsecondRun,
    List.mem_cons_self, congrArg (rotatedKey :: ·) hkeys, rfl, hsecondId, hsecondRun.rest_eq⟩

/-- Not all runs of this life are served. -/
theorem life_served_iff_sample :
    ∃ turns : List (Turn PathBuf Target.release64),
      (∃ turn ∈ turns, turn.deployment.usedKeys = [rotatedKey, sampleKey]) ∧
      (¬ ∀ turn ∈ turns, turn.Served) ∧
      ((∀ turn ∈ turns, turn.Served) ↔ ∀ turn ∈ turns,
        storedValue (turn.deployment.files (SessionIdStore.new sampleKeyPath).path) =
          some 65535 → turn.deployment.found = none) := by
  obtain ⟨turns, deployment, turn, hlife, hmem, hkeys, hpersisted, hnone, -⟩ := exists_rotatedLife
  refine ⟨turns, ⟨turn, hmem, hkeys⟩, fun hserved => ?_, life_served_iff hlife⟩
  obtain ⟨id, hid⟩ := (hserved turn hmem).obtains (by omega)
  cases hid.symm.trans hnone

/-- After 65535 sessions the key is rotated, and the next run reports the overflow
though no session id has been used under its key. -/
theorem rotation_keeps_overflow :
    ∃ (turns : List (Turn PathBuf Target.release64)) (deployment : Deployment PathBuf)
      (turn : Turn PathBuf Target.release64), Life id sampleKeyPath turns deployment ∧
      turn ∈ turns ∧ turn.deployment.usedKeys = [rotatedKey, sampleKey] ∧
      turn.deployment.persisted = 0 ∧ turn.attempt.sessionId = none ∧
      turn.attempt.rest = .done (.error (.error .sessionIdOverflow)) :=
  exists_rotatedLife

end Sample

end Fiudp.Run
