import Fiudp.Core.World
import Fiudp.Os.Calls

/-!
# Files

A file system in which several paths may lead to one file: links of either kind
are a map from paths to files, and a call acts on the file its path leads to.  A
failed call leaves the files as they are.
-/

namespace Fiudp.Os

open ByteLayout Interaction

variable {target : Target}

/-- The contents of one file, if it exists. -/
abbrev FileContents := Option (List UInt8)

/-- The bytes of a file after a write of one byte.  A gap between the end of the file and the
offset is filled with zeros. -/
def bytesAfter (bytes : List UInt8) (offset : ℕ) (byte : UInt8) : List UInt8 :=
  overwrite (bytes ++ List.replicate (offset - bytes.length) 0) offset [byte]

/-- What an answered call does to the file `node`. -/
def nodeAfter {Node : Type} [DecidableEq Node] (locate : PathBuf → Node) (node : Node) :
    FileContents → Event Syscall (SysReply target) → FileContents
  | contents, ⟨.openTruncate path, .ok ()⟩ =>
      if locate path = node then some [] else contents
  | contents, ⟨.writeByte path offset byte, .ok ()⟩ =>
      if locate path = node then contents.map fun bytes => bytesAfter bytes offset byte
      else contents
  | contents, _ => contents

/-- Whether the answer of a call is one the file `node` allows: a read returns its
bytes, and reports `NotFound` only when there is no file. -/
def NodeAllows {Node : Type} (locate : PathBuf → Node) (node : Node)
    (contents : FileContents) : Event Syscall (SysReply target) → Prop
  | ⟨.read path, .ok bytes⟩ => locate path = node → contents = some bytes.val
  | ⟨.read path, .error .notFound⟩ => locate path = node → contents = none
  | _ => True

/-- One call, as the file `node` sees it. -/
def NodeStep {Node : Type} [DecidableEq Node] (locate : PathBuf → Node) (node : Node)
    (before : FileContents) (event : Event Syscall (SysReply target))
    (after : FileContents) : Prop :=
  NodeAllows locate node before event ∧ after = nodeAfter locate node before event

/-- One call, on all files. -/
def FileStep {Node : Type} [DecidableEq Node] (locate : PathBuf → Node)
    (before : Node → FileContents) (event : Event Syscall (SysReply target))
    (after : Node → FileContents) : Prop :=
  ∀ node, NodeStep locate node (before node) event (after node)

/-- The calls that can change a file. -/
def Syscall.IsWrite : Syscall → Prop
  | .openTruncate _ | .writeByte _ _ _ => True
  | _ => False

def Syscall.IsFileCall : Syscall → Prop
  | .read _ | .openTruncate _ | .writeByte _ _ _ => True
  | _ => False

section

variable {Node : Type} [DecidableEq Node] {locate : PathBuf → Node}

/-- Each file sees its own part of what happens. -/
theorem follows_node {before after : Node → FileContents} {trace : SysTrace target}
    (hfollows : Follows (FileStep locate) before trace after) (node : Node) :
    Follows (NodeStep locate node) (before node) trace (after node) :=
  hfollows.view (fun files => files node) fun _ _ _ hstep => hstep node

/-- The calls that can change the file `node`. -/
def Writes (node : Node) (locate : PathBuf → Node) : Syscall → Prop
  | .openTruncate path | .writeByte path _ _ => locate path = node
  | _ => False

omit [DecidableEq Node] in
theorem Writes.isWrite {node : Node} {call : Syscall} (hwrites : Writes node locate call) :
    call.IsWrite := by
  cases call <;> trivial

theorem nodeAfter_of_not_writes {node : Node} {contents : FileContents}
    {event : Event Syscall (SysReply target)} (hwrites : ¬ Writes node locate event.call) :
    nodeAfter locate node contents event = contents := by
  obtain ⟨call, reply⟩ := event
  cases call with
  | openTruncate path =>
      cases reply with
      | ok => exact if_neg hwrites
      | error => rfl
  | writeByte path offset byte =>
      cases reply with
      | ok => exact if_neg hwrites
      | error => rfl
  | _ => rfl

theorem follows_of_not_writes {node : Node} {before after : FileContents}
    {trace : SysTrace target} (hfollows : Follows (NodeStep locate node) before trace after)
    (hwrites : ∀ event ∈ trace, ¬ Writes node locate event.call) : after = before :=
  hfollows.frame id fun event hmem _ _ hstep =>
    hstep.2.trans (nodeAfter_of_not_writes (hwrites event hmem))

/-! ## Steps that succeed -/

variable {files : Node → FileContents}

theorem fileStep_of_not_fileCall {event : Event Syscall (SysReply target)}
    (hcall : ¬ event.call.IsFileCall) : FileStep locate files event files := by
  obtain ⟨call, reply⟩ := event
  cases call with
  | read | openTruncate | writeByte => exact absurd trivial hcall
  | _ => exact fun node => ⟨trivial, rfl⟩

theorem follows_of_not_fileCalls {trace : SysTrace target}
    (hcalls : ∀ event ∈ trace, ¬ event.call.IsFileCall) :
    Follows (FileStep locate) files trace files := by
  induction trace with
  | nil => rfl
  | cons event trace ih =>
      simp only [List.forall_mem_cons] at hcalls
      exact ⟨files, fileStep_of_not_fileCall hcalls.1, ih hcalls.2⟩

theorem fileStep_read {path : PathBuf} {bytes : ByteVec target}
    (hfile : files (locate path) = some bytes.val) :
    FileStep locate files ⟨.read path, .ok bytes⟩ files := by
  refine fun node => ⟨?_, rfl⟩
  rintro rfl
  exact hfile

theorem fileStep_notFound {path : PathBuf} (hfile : files (locate path) = none) :
    FileStep locate files (⟨.read path, .error .notFound⟩ : Event Syscall (SysReply target))
      files := by
  refine fun node => ⟨?_, rfl⟩
  rintro rfl
  exact hfile

theorem fileStep_openTruncate (path : PathBuf) :
    FileStep locate files (⟨.openTruncate path, .ok ()⟩ : Event Syscall (SysReply target))
      (Function.update files (locate path) (some [])) := by
  refine fun node => ⟨trivial, ?_⟩
  by_cases hnode : node = locate path
  · subst hnode
    rw [Function.update_self]
    exact (if_pos rfl).symm
  · rw [Function.update_of_ne hnode]
    exact (if_neg (Ne.symm hnode)).symm

theorem fileStep_writeByte {path : PathBuf} {bytes : List UInt8} (offset : ℕ) (byte : UInt8)
    (hfile : files (locate path) = some bytes) :
    FileStep locate files
      (⟨.writeByte path offset byte, .ok ()⟩ : Event Syscall (SysReply target))
      (Function.update files (locate path) (some (bytesAfter bytes offset byte))) := by
  refine fun node => ⟨trivial, ?_⟩
  by_cases hnode : node = locate path
  · subst hnode
    rw [Function.update_self, hfile]
    exact (if_pos rfl).symm
  · rw [Function.update_of_ne hnode]
    exact (if_neg (Ne.symm hnode)).symm

end

end Fiudp.Os
