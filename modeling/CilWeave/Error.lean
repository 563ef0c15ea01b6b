import CilWeave.OpCode
import CilWeave.Token

/-
Everything that can go wrong, as causes.

`Error.message` gives the wording of each cause. `Error.isMethodScoped` says how
far a failure reaches: a defect of one method body leaves that method alone and
lets the pass go on with the next one; every other error ends the pass.
-/

namespace CilWeave

/-- The handle of an instruction inside one instruction list: the index of its
slot, which no later insertion or removal moves. -/
structure InstrId where
  /-- The index of the slot. -/
  index : UInt32
  deriving DecidableEq, Repr, Inhabited

namespace InstrId

def slot (id : InstrId) : Nat := id.index.toNat

/-- The handle of a slot; slots are counted below 2^32. -/
def ofSlot (n : Nat) : InstrId := ⟨UInt32.ofNat n⟩

def text (id : InstrId) : String := "#" ++ toString id.slot

theorem slot_injective {a b : InstrId} (h : a.slot = b.slot) : a = b := by
  cases a; cases b; simpa [slot, UInt32.toNat_inj] using h

theorem slot_ofSlot {n : Nat} (h : n < UInt32.size) : (ofSlot n).slot = n := by
  simp only [slot, ofSlot]
  exact UInt32.toNat_ofNat_of_lt' h

theorem ofSlot_slot (id : InstrId) : ofSlot id.slot = id := by
  cases id; simp [slot, ofSlot]

theorem slot_lt (id : InstrId) : id.slot < UInt32.size := UInt32.toNat_lt_size _

end InstrId

/-- A structure that could not be interpreted or built. -/
inductive Malformation where
  /-- A link leads to no attached instruction. -/
  | missingLink (id : InstrId)
  /-- The chain of links comes to an instruction a second time. -/
  | linkedTwice (id : InstrId)
  /-- The back link of an instruction is not the instruction before it. -/
  | brokenBackLink (id : InstrId)
  /-- The chain of links does not end at the tail. -/
  | wrongTail
  /-- The chain, the attached instructions and the stated length disagree. -/
  | wrongCount (chained attached stated : Nat)
  /-- There is no handle left for another instruction. -/
  | arenaFull
  /-- There is no index left for another local. -/
  | tooManyLocals
  /-- There is no index left for another argument. -/
  | tooManyArguments
  /-- A replacement without a single instruction. -/
  | emptyReplacement
  /-- A trailer where no instruction follows the replaced one. -/
  | nothingFollows
  /-- The code does not fit the range of offsets. -/
  | codeTooLong
  /-- The depth of the stack does not fit its field. -/
  | stackTooDeep
  /-- Any other malformation, told in words. -/
  | told (text : String)
  deriving DecidableEq, Repr, Inhabited

/-- The wording of a malformation. -/
def Malformation.message : Malformation → String
  | .missingLink id => "Link to missing instruction " ++ id.text
  | .linkedTwice id => "Instruction " ++ id.text ++ " is linked twice"
  | .brokenBackLink id => "Instruction " ++ id.text ++ " does not link back to its predecessor"
  | .wrongTail => "Tail is not the end of the instruction chain"
  | .wrongCount chained attached stated =>
    "Instruction chain holds " ++ toString chained ++ " of " ++ toString attached
      ++ " attached nodes, length says " ++ toString stated
  | .arenaFull => "Instruction arena exceeds u32 range"
  | .tooManyLocals => "Too many locals"
  | .tooManyArguments => "Too many arguments"
  | .emptyReplacement => "Empty replacement sequence"
  | .nothingFollows => "No instruction follows the replaced sequence"
  | .codeTooLong => "Method body exceeds u32 range"
  | .stackTooDeep => "Stack depth exceeds u16 range"
  | .told text => text

/-- A reference to something that is not part of the method body. -/
inductive Dangling where
  /-- The anchor of an edit is not in the list. -/
  | anchor (id : InstrId)
  /-- A branch leads to a detached instruction. -/
  | branch (op : OpCode) (position : Nat)
  /-- A local operand names no declared local. -/
  | undeclaredLocal (op : OpCode) (position : Nat) (index : UInt16)
  /-- A handler boundary is a detached instruction. -/
  | boundary (handler : Nat) (id : InstrId)
  /-- The stack analysis is sent to an instruction outside the body. -/
  | flow (id : InstrId)
  /-- The site of a replacement is not in the body. -/
  | site (id : InstrId)
  /-- A rule asks for an instruction that is not in the body. -/
  | lookup (id : InstrId)
  /-- A method is not where its token points. -/
  | method (token : Token)
  /-- Any other dangling reference, told in words. -/
  | told (text : String)
  deriving DecidableEq, Repr, Inhabited

/-- The wording of a dangling reference. -/
def Dangling.message : Dangling → String
  | .anchor id => "instruction " ++ id.text ++ " is not in the list"
  | .branch op position =>
    "'" ++ op.mnemonic ++ "' at position " ++ toString position
      ++ " targets a detached instruction"
  | .undeclaredLocal op position index =>
    "'" ++ op.mnemonic ++ "' at position " ++ toString position ++ " uses undeclared local "
      ++ toString index.toNat
  | .boundary handler id =>
    "exception handler " ++ toString handler ++ " references detached instruction " ++ id.text
  | .flow id => "instruction " ++ id.text ++ " is not in the body"
  | .site id => "rewrite site " ++ id.text ++ " is not in the body"
  | .lookup id => "instruction " ++ id.text
  | .method token => token.text
  | .told text => text

/-- Why a file could not be read or written. -/
inductive FileFault where
  /-- No such file, or no such directory to put it in. -/
  | notFound
  /-- A directory stands where a file is wanted. -/
  | isDirectory
  /-- A file stands where a directory is wanted. -/
  | notDirectory
  /-- A directory is to be made where something stands already. -/
  | exists
  /-- The content is no text. -/
  | notText
  /-- A name in the path, or the path itself, is longer than a file can be called. -/
  | nameTooLong
  /-- The path has a character that no path can have. -/
  | badCharacter
  deriving DecidableEq, Repr, Inhabited

def FileFault.message : FileFault → String
  | .notFound => "No such file or directory (os error 2)"
  | .isDirectory => "Is a directory (os error 21)"
  | .notDirectory => "Not a directory (os error 20)"
  | .exists => "File exists (os error 17)"
  | .notText => "stream did not contain valid UTF-8"
  | .nameTooLong => "File name too long (os error 36)"
  | .badCharacter => "file name contained an unexpected NUL byte"

/-- Why a module document could not be read. -/
inductive DocumentFault where
  /-- The text is no document of the expected shape. -/
  | shape
  /-- An instruction list of the document is not well linked. -/
  | list (cause : Malformation)
  /-- The file could not be read to its end. -/
  | file (fault : FileFault)
  deriving DecidableEq, Repr, Inhabited

def DocumentFault.message : DocumentFault → String
  | .shape => "unexpected document"
  | .list cause => cause.message
  | .file fault => fault.message

/-- Everything an operation of the library can fail with. -/
inductive Error where
  /-- A structure could not be interpreted or built. -/
  | malformed (cause : Malformation)
  /-- A file could not be read or written. -/
  | file (fault : FileFault)
  /-- A module document could not be read. -/
  | document (fault : DocumentFault)
  /-- A helper module is not available. -/
  | moduleNotFound (module : String)
  /-- A type does not exist in the inspected module. -/
  | typeNotFound (type : String)
  /-- No member matches a query. -/
  | memberNotFound (query module : String)
  /-- Several members match a query. -/
  | ambiguousMember (query module : String) (count : Nat)
  /-- A token names no row of the reference table. -/
  | unresolvedToken (token : Token)
  /-- An opcode the stack analysis does not model. -/
  | unsupportedInstruction (op : OpCode)
  /-- An operand of the wrong kind. -/
  | invalidOperand (op : OpCode) (expected : String)
  /-- An instruction pops more values than there are. -/
  | stackUnderflow (position : Nat) (op : OpCode)
  /-- Two paths reach an instruction with different depths. -/
  | stackMismatch (position expected found : Nat)
  /-- Control can run past the last instruction. -/
  | fallThrough
  /-- A reference leads out of the method body. -/
  | dangling (cause : Dangling)
  /-- A block of a patch cache has no terminator. -/
  | cacheMalformed (path : String) (line : Nat) (text : String)
  /-- A recorded method could not be patched again. -/
  | cacheReplay (type method : String)
  /-- The code around a patch site has not the shape a pass relies on. -/
  | unexpectedShape (method text : String)
  deriving DecidableEq, Repr, Inhabited

namespace Error

/-- The name of the kind of error. -/
def kind : Error → String
  | .malformed _ => "Malformed"
  | .file _ => "FileError"
  | .document _ => "Json"
  | .moduleNotFound _ => "ModuleNotFound"
  | .typeNotFound _ => "TypeNotFound"
  | .memberNotFound .. => "MemberNotFound"
  | .ambiguousMember .. => "AmbiguousMember"
  | .unresolvedToken _ => "UnresolvedToken"
  | .unsupportedInstruction _ => "UnsupportedInstruction"
  | .invalidOperand .. => "InvalidOperand"
  | .stackUnderflow .. => "StackUnderflow"
  | .stackMismatch .. => "StackMismatch"
  | .fallThrough => "FallThrough"
  | .dangling _ => "DanglingReference"
  | .cacheMalformed .. => "CacheMalformed"
  | .cacheReplay .. => "CacheReplay"
  | .unexpectedShape .. => "UnexpectedShape"

/-- The wording of an error. -/
def message : Error → String
  | .malformed cause => cause.message
  | .file fault => fault.message
  | .document fault => fault.message
  | .moduleNotFound module => "Reference module not found - " ++ module
  | .typeNotFound type => "Type not found - " ++ type
  | .memberNotFound query module => "No member matches " ++ query ++ " in " ++ module
  | .ambiguousMember query module count =>
    toString count ++ " members match " ++ query ++ " in " ++ module
  | .unresolvedToken token => "Unresolved token - " ++ token.text
  | .unsupportedInstruction op => "Unsupported instruction '" ++ op.mnemonic ++ "'"
  | .invalidOperand op expected =>
    "Invalid operand for '" ++ op.mnemonic ++ "': expected " ++ expected
  | .stackUnderflow position op =>
    "Stack underflow at instruction " ++ toString position ++ " ('" ++ op.mnemonic ++ "')"
  | .stackMismatch position expected found =>
    "Stack depth mismatch at instruction " ++ toString position ++ ": " ++ toString expected
      ++ " vs " ++ toString found
  | .fallThrough => "Control falls through the end of the method body"
  | .dangling cause => "Dangling instruction reference - " ++ cause.message
  | .cacheMalformed path line text =>
    "Patch cache " ++ path ++ " is malformed at line " ++ toString line ++ ": " ++ text
  | .cacheReplay type method => "Failed to replay cached patch of " ++ type ++ " " ++ method
  | .unexpectedShape method text => "Unexpected code in " ++ method ++ ": " ++ text

/-- Whether the error only spoils the method that was being edited. -/
def isMethodScoped : Error → Bool
  | .unsupportedInstruction _ | .invalidOperand .. | .stackUnderflow .. | .stackMismatch ..
  | .fallThrough | .dangling _ | .malformed _ => true
  | _ => false

end Error

end CilWeave
