import Fiudp.Base.Error
import Fiudp.Core.Texts

/-!
# Error messages

The texts errors are shown with.  A text tells which error it is, up to the source of an I/O
error, which is not shown.
-/

namespace Fiudp

open Texts

/-- `impl Display for FiudpError`. -/
def FiudpError.display : FiudpError → String
  | invalidParityRatio value =>
      "invalid parity ratio " ++ toString value ++ ": must be 0–100"
  | invalidKeyLength length => "key file must contain exactly 32 bytes, got " ++ toString length
  | invalidSessionFile => "session_id file must contain exactly 2 bytes"
  | sessionIdOverflow =>
      "session_id overflow (u16::MAX reached); rotate PSK and reset receiver state"
  | emptyInput => "input is empty"
  | tooManyShards total => "total shards " ++ toString total ++ " exceeds u16 limit"
  | invalidShardSize actual expected =>
      "invalid shard size " ++ toString actual ++ ", expected " ++ toString expected
  | shortSend sent expected =>
      "short UDP send: " ++ toString sent ++ " of " ++ toString expected ++ " bytes"
  | encryption message => "encryption failed: " ++ message
  | fec message => "FEC encoding failed: " ++ message
  | io context _ => context.text

/-! ## Openings -/

/-- What was being attempted, without the file or the address. -/
inductive IoStage
  | readKeyFile
  | readInputFile
  | readStdin
  | readSessionFile
  | writeSessionFile
  | bindSocket
  | connectSocket
  | sendPacket
  deriving DecidableEq

/-- The fixed texts a message can start with. -/
inductive Opening
  | invalidParityRatio
  | invalidKeyLength
  | invalidSessionFile
  | sessionIdOverflow
  | emptyInput
  | tooManyShards
  | invalidShardSize
  | shortSend
  | encryption
  | fec
  | io (stage : IoStage)
  deriving DecidableEq

def IoStage.text : IoStage → String
  | readKeyFile => "failed to read key file "
  | readInputFile => "failed to read input file "
  | readStdin => "failed to read from stdin"
  | readSessionFile => "failed to read session_id file "
  | writeSessionFile => "failed to write session_id file "
  | bindSocket => "failed to bind UDP socket"
  | connectSocket => "failed to connect UDP socket to "
  | sendPacket => "failed to send UDP packet to "

def Opening.text : Opening → String
  | invalidParityRatio => "invalid parity ratio "
  | invalidKeyLength => "key file must contain exactly 32 bytes, got "
  | invalidSessionFile => "session_id file must contain exactly 2 bytes"
  | sessionIdOverflow =>
      "session_id overflow (u16::MAX reached); rotate PSK and reset receiver state"
  | emptyInput => "input is empty"
  | tooManyShards => "total shards "
  | invalidShardSize => "invalid shard size "
  | shortSend => "short UDP send: "
  | encryption => "encryption failed: "
  | fec => "FEC encoding failed: "
  | io stage => stage.text

def IoStage.all : List IoStage :=
  [readKeyFile, readInputFile, readStdin, readSessionFile, writeSessionFile, bindSocket,
    connectSocket, sendPacket]

def Opening.all : List Opening :=
  [invalidParityRatio, invalidKeyLength, invalidSessionFile, sessionIdOverflow, emptyInput,
    tooManyShards, invalidShardSize, shortSend, encryption, fec] ++ IoStage.all.map io

theorem Opening.mem_all (opening : Opening) : opening ∈ all := by
  cases opening with
  | io stage => cases stage <;> decide
  | _ => decide

theorem incomparable_openings : Incomparable Opening.text := by
  have hall : ∀ left ∈ Opening.all, ∀ right ∈ Opening.all,
      left.text.toList <+: right.text.toList → left = right := by
    decide +kernel
  exact fun left right => hall left left.mem_all right right.mem_all

def IoContext.stage : IoContext → IoStage
  | readKeyFile _ => .readKeyFile
  | readInputFile _ => .readInputFile
  | readStdin => .readStdin
  | readSessionFile _ => .readSessionFile
  | writeSessionFile _ => .writeSessionFile
  | bindSocket => .bindSocket
  | connectSocket _ => .connectSocket
  | sendPacket _ => .sendPacket

def FiudpError.opening : FiudpError → Opening
  | invalidParityRatio _ => .invalidParityRatio
  | invalidKeyLength _ => .invalidKeyLength
  | invalidSessionFile => .invalidSessionFile
  | sessionIdOverflow => .sessionIdOverflow
  | emptyInput => .emptyInput
  | tooManyShards _ => .tooManyShards
  | invalidShardSize _ _ => .invalidShardSize
  | shortSend _ _ => .shortSend
  | encryption _ => .encryption
  | fec _ => .fec
  | io context _ => .io context.stage

/-! ## Particulars -/

/-- What an I/O context says after its opening. -/
def IoContext.particulars : IoContext → String
  | readKeyFile path => path.display
  | readInputFile path => path.display
  | readStdin => ""
  | readSessionFile path => path.display
  | writeSessionFile path => path.display
  | bindSocket => ""
  | connectSocket target => target.display
  | sendPacket target => target.display

/-- What a message says after its opening. -/
def FiudpError.particulars : FiudpError → String
  | invalidParityRatio value => toString value ++ ": must be 0–100"
  | invalidKeyLength length => toString length
  | invalidSessionFile => ""
  | sessionIdOverflow => ""
  | emptyInput => ""
  | tooManyShards total => toString total ++ " exceeds u16 limit"
  | invalidShardSize actual expected => toString actual ++ (", expected " ++ toString expected)
  | shortSend sent expected => toString sent ++ (" of " ++ (toString expected ++ " bytes"))
  | encryption message => message
  | fec message => message
  | io context _ => context.particulars

-- The equation lemmas of a `match` into long texts are too costly; `delta` opens it as it is.
theorem IoContext.text_eq (context : IoContext) :
    context.text = context.stage.text ++ context.particulars := by
  delta text
  cases context with
  | readStdin | bindSocket => rw [stage, IoStage.text, particulars, String.append_empty]
  | _ => rw [stage, IoStage.text, particulars]

theorem FiudpError.display_eq (error : FiudpError) :
    error.display = error.opening.text ++ error.particulars := by
  delta display
  cases error with
  | io context source => rw [opening, Opening.text, particulars, ← context.text_eq]
  | invalidSessionFile | sessionIdOverflow | emptyInput =>
      rw [opening, Opening.text, particulars, String.append_empty]
  | invalidKeyLength | encryption | fec => rw [opening, Opening.text, particulars]
  | _ =>
      rw [opening, Opening.text, particulars]
      simp only [String.append_assoc]

theorem PathBuf.display_injective {left right : PathBuf} (heq : left.display = right.display) :
    left = right := by
  cases left
  cases right
  rw [display, display, String.ofList_inj] at heq
  exact congrArg PathBuf.mk heq

theorem toString_u8 (value : UInt8) : toString value = toString value.toNat := rfl

theorem toString_u16 (value : UInt16) : toString value = toString value.toNat := rfl

/-- The texts of addresses are four numbers between dots and one after a colon. -/
theorem SocketAddrV4.display_injective {left right : SocketAddrV4}
    (heq : left.display = right.display) : left = right := by
  obtain ⟨leftOctets, leftPort⟩ := left
  obtain ⟨rightOctets, rightPort⟩ := right
  simp only [display, String.append_assoc, toString_u8, toString_u16] at heq
  obtain ⟨hfirst, heq⟩ := toString_append_inj (by simp) (by simp) heq
  obtain ⟨hsecond, heq⟩ :=
    toString_append_inj (by simp) (by simp) ((String.append_right_inj _).mp heq)
  obtain ⟨hthird, heq⟩ :=
    toString_append_inj (by simp) (by simp) ((String.append_right_inj _).mp heq)
  obtain ⟨hfourth, heq⟩ :=
    toString_append_inj (by simp) (by simp) ((String.append_right_inj _).mp heq)
  have hport := UInt16.toNat_inj.mp (toString_inj ((String.append_right_inj _).mp heq))
  have hoctets : leftOctets = rightOctets := by
    funext index
    apply UInt8.toNat_inj.mp
    fin_cases index
    exacts [hfirst, hsecond, hthird, hfourth]
  rw [hoctets, hport]

/-! ## What a message tells -/

theorem IoContext.eq_of_particulars {left right : IoContext} (hstage : left.stage = right.stage)
    (hrest : left.particulars = right.particulars) : left = right := by
  cases left <;> cases right <;> cases hstage
  case readStdin.readStdin | bindSocket.bindSocket => rfl
  case connectSocket.connectSocket | sendPacket.sendPacket =>
    exact congrArg _ (SocketAddrV4.display_injective hrest)
  all_goals exact congrArg _ (PathBuf.display_injective hrest)

/-- Errors that are the same but for the source of an I/O error. -/
inductive FiudpError.SameCause : FiudpError → FiudpError → Prop
  | refl (error : FiudpError) : SameCause error error
  | io (context : IoContext) (one two : ErrorKind) : SameCause (.io context one) (.io context two)

theorem FiudpError.sameCause_of_particulars {left right : FiudpError}
    (hopening : left.opening = right.opening) (hrest : left.particulars = right.particulars) :
    SameCause left right := by
  cases left with
  | invalidParityRatio value =>
      cases right with
      | invalidParityRatio other =>
          obtain ⟨hvalue, -⟩ := toString_append_inj (by simp) (by simp) hrest
          rw [UInt8.toNat_inj.mp hvalue]
          exact .refl _
      | _ => cases hopening
  | invalidKeyLength length =>
      cases right with
      | invalidKeyLength other =>
          rw [toString_inj hrest]
          exact .refl _
      | _ => cases hopening
  | invalidSessionFile | sessionIdOverflow | emptyInput =>
      cases right <;> first | exact .refl _ | cases hopening
  | tooManyShards total =>
      cases right with
      | tooManyShards other =>
          obtain ⟨rfl, -⟩ := toString_append_inj (by simp) (by simp) hrest
          exact .refl _
      | _ => cases hopening
  | invalidShardSize actual expected =>
      cases right with
      | invalidShardSize other wanted =>
          obtain ⟨rfl, hexpected⟩ := toString_append_inj (by simp) (by simp) hrest
          rw [toString_inj ((String.append_right_inj _).mp hexpected)]
          exact .refl _
      | _ => cases hopening
  | shortSend sent expected =>
      cases right with
      | shortSend other wanted =>
          obtain ⟨rfl, hexpected⟩ := toString_append_inj (by simp) (by simp) hrest
          obtain ⟨rfl, -⟩ := toString_append_inj (by simp) (by simp)
            ((String.append_right_inj _).mp hexpected)
          exact .refl _
      | _ => cases hopening
  | encryption message =>
      cases right with
      | encryption other =>
          obtain rfl : message = other := hrest
          exact .refl _
      | _ => cases hopening
  | fec message =>
      cases right with
      | fec other =>
          obtain rfl : message = other := hrest
          exact .refl _
      | _ => cases hopening
  | io context source =>
      cases right with
      | io other another =>
          obtain rfl := IoContext.eq_of_particulars (Opening.io.inj hopening) hrest
          exact .io context source another
      | _ => cases hopening

/-- Errors are shown with the same text exactly if they are the same but for the source of an
I/O error. -/
theorem FiudpError.display_eq_iff (left right : FiudpError) :
    left.display = right.display ↔ SameCause left right := by
  constructor
  · intro heq
    rw [left.display_eq, right.display_eq] at heq
    obtain ⟨hopening, hrest⟩ := incomparable_openings.append_inj heq
    exact sameCause_of_particulars hopening hrest
  · intro hsame
    cases hsame with
    | refl error => rfl
    | io context one two =>
        rw [display_eq, display_eq]
        rfl

end Fiudp
