import CilWeave.Flags
import CilWeave.Instruction

/-
Exception handlers. Boundaries are handles of instructions; ends are exclusive,
and a region without an end runs to the end of the body.
-/

namespace CilWeave

/-- The kind of a handler clause, as a word of flags. -/
structure HandlerFlags where
  /-- The word. -/
  bits : UInt16
  deriving DecidableEq, Repr, Inhabited

namespace HandlerFlags

/-- A clause that catches exceptions of a type. -/
def typed : HandlerFlags := ⟨0⟩

def finallyClause : HandlerFlags := ⟨2⟩

def names : FlagNames := ⟨[("EXCEPTION", 0), ("FILTER", 1), ("FINALLY", 2), ("FAULT", 4)], 16⟩

end HandlerFlags

/-- A protected region and its handler. -/
structure Handler where
  /-- The kind of clause. -/
  flags : HandlerFlags
  /-- The first instruction of the protected region. -/
  tryStart : InstrId
  /-- The first instruction after the protected region. -/
  tryEnd : Option InstrId
  /-- The first instruction of the handler. -/
  handlerStart : InstrId
  /-- The first instruction after the handler. -/
  handlerEnd : Option InstrId
  /-- The first instruction of the filter. -/
  filterStart : Option InstrId
  /-- The type of the exceptions that are caught. -/
  catchType : Option TypeSig
  deriving DecidableEq, Repr, Inhabited

namespace Handler

def catching (type : TypeSig) (tryStart : InstrId) (tryEnd : Option InstrId)
    (handlerStart : InstrId) (handlerEnd : Option InstrId) : Handler :=
  ⟨.typed, tryStart, tryEnd, handlerStart, handlerEnd, none, some type⟩

def finalizing (tryStart : InstrId) (tryEnd : Option InstrId) (handlerStart : InstrId)
    (handlerEnd : Option InstrId) : Handler :=
  ⟨.finallyClause, tryStart, tryEnd, handlerStart, handlerEnd, none, none⟩

/-- Whether the handler is entered with the exception on the stack: every clause
is, except a finally or fault clause. -/
def pushesException (h : Handler) : Bool := h.flags.bits &&& 0x0006 == 0

def boundaries (h : Handler) : List InstrId :=
  [some h.tryStart, h.tryEnd, some h.handlerStart, h.handlerEnd, h.filterStart].filterMap id

end Handler

end CilWeave
