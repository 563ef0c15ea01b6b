import CilWeave.Module.Basic
import CilWeave.Rewrite.Rule

/-
Editing one method body, all or nothing.

An edit works on the expanded body; if it changed something, the body is
compacted, which verifies it once more. Whatever goes wrong, the body is then the
one before the edit, down to its encoding. References that the edit imported
stay.

A rule is run over a body from the last instruction to the first. The
instructions it is offered are those that were there at the start, so nothing
the rule inserts is ever offered to it.
-/

namespace CilWeave

/-- A method body that is being edited, with the references of its module. -/
structure Draft (σ : Type) where
  /-- The body. -/
  body : MethodBody
  /-- The references of the module. -/
  references : ReferenceTable
  /-- What the edit remembers. -/
  memory : σ

namespace Draft

/-- The token of a member in the module's references. -/
def importMember {σ : Type} (member : MemberRef) : Edit (Draft σ) Token := fun d =>
  let (token, references) := d.references.intern member
  .ok token { d with references }

def onBody {σ α : Type} (edit : Edit MethodBody α) : Edit (Draft σ) α :=
  .within body (fun d body => { d with body }) edit

theorem onBody_eq_ok {σ α : Type} {edit : Edit MethodBody α} {d d' : Draft σ} {a : α}
    (h : onBody edit d = .ok a d') :
    ∃ body, edit d.body = .ok a body ∧ d' = { d with body } := Edit.within_eq_ok.mp h

theorem onBody_of_ok {σ α : Type} {edit : Edit MethodBody α} {d : Draft σ} {a : α}
    {body : MethodBody} (h : edit d.body = .ok a body) :
    onBody edit d = .ok a { d with body } := Edit.within_of_ok h

/-- Expands the body, edits it, and compacts it if the edit changed it. -/
def editExpanded {σ α : Type} (returnType : TypeSig) (isChange : α → Bool)
    (edit : Edit (Draft σ) α) : Edit (Draft σ) α := fun d =>
  match onBody MethodBody.expand d with
  | .error e d => .error e d
  | .ok () d =>
    match edit d with
    | .error e d => .error e d
    | .ok a d =>
      if isChange a then
        match onBody (MethodBody.compact d.references returnType) d with
        | .error e d => .error e d
        | .ok () d => .ok a d
      else .ok a d

/-- Edits the body of a method with this return type, all or nothing: the body is
as before unless the edit succeeds and its result is a change. -/
def transact {σ α : Type} (returnType : TypeSig) (isChange : α → Bool)
    (edit : Edit (Draft σ) α) : Edit (Draft σ) α := fun d =>
  match editExpanded returnType isChange edit d with
  | .error e after => .error e { after with body := d.body }
  | .ok a after => .ok a (if isChange a then after else { after with body := d.body })

end Draft

/-! Running a rule over a body. -/

/-- An instruction that was offered to a rule. -/
structure Offer where
  /-- The instruction. -/
  site : InstrId
  /-- Whether the rule replaced it. -/
  replaced : Bool
  deriving DecidableEq, Repr, Inhabited

namespace Offer

/-- How many of the offers were replaced. -/
def replacedCount (offers : List Offer) : Nat := offers.countP Offer.replaced

/-- How many of the offers the rule declined. -/
def missedCount (offers : List Offer) : Nat := offers.countP fun o => !o.replaced

end Offer

namespace RewriteRule

def appliesAt {σ : Type} (rule : RewriteRule σ) (d : Draft σ) (site : InstrId) : Bool :=
  match d.body.code.get? site with
  | some i => rule.applies d.memory d.references i
  | none => false

/-- Offers a candidate to the rule and does as it says. -/
def offer {σ : Type} (rule : RewriteRule σ) (site : InstrId) (scratch : ScratchLocals) :
    Edit (Draft σ) (Offer × ScratchLocals) := fun d =>
  match rule.build d.body site ⟨d.body.locals, scratch, d.references, d.memory⟩ with
  | .error e s => .error e ⟨{ d.body with locals := s.locals }, s.references, s.memory⟩
  | .ok replacement? s =>
    let d : Draft σ := ⟨{ d.body with locals := s.locals }, s.references, s.memory⟩
    match replacement? with
    | none => .ok (⟨site, false⟩, s.scratch) d
    | some replacement =>
      match Draft.onBody (MethodBody.replace site replacement) d with
      | .error e d => .error e d
      | .ok () d => .ok (⟨site, true⟩, s.scratch) d

/-- Offers the candidates among some instructions to the rule, one after the other;
`done` holds the offers so far, the latest first. -/
def offerEach {σ : Type} (rule : RewriteRule σ) :
    List InstrId → ScratchLocals → (done : List Offer) → Edit (Draft σ) (List Offer)
  | [], _, done, d => .ok done.reverse d
  | site :: rest, scratch, done, d =>
    if rule.appliesAt d site then
      match rule.offer site scratch d with
      | .error e d => .error e d
      | .ok (o, scratch) d => offerEach rule rest scratch (o :: done) d
    else offerEach rule rest scratch done d

/-- Runs the rule over an expanded body, from the last instruction to the first. -/
def sweep {σ : Type} (rule : RewriteRule σ) : Edit (Draft σ) (List Offer) := fun d =>
  rule.offerEach d.body.code.ids.reverse .empty [] d

/-- Rewrites the body of a method with this return type, all or nothing, and
answers what was offered to the rule. -/
def rewrite {σ : Type} (rule : RewriteRule σ) (returnType : TypeSig) :
    Edit (Draft σ) (List Offer) :=
  Draft.transact returnType (fun offers => offers.any Offer.replaced) rule.sweep

end RewriteRule

/-! Editing the methods of a module. -/

namespace Module

/-- The module with the outcome of an edit of one of its methods. -/
def commit {σ : Type} (m : Module) (t : Token) (method : MethodDef) (d : Draft σ) : Module :=
  { m.setMethod t { method with body := some d.body } with references := d.references }

/-- Edits the body of the method a token names; `absent` is the result for a method
without a body. -/
def editMethod {α : Type} (t : Token) (method : MethodDef) (absent : α)
    (edit : (returnType : TypeSig) → Edit (Draft Unit) α) : Edit Module α := fun m =>
  match method.body with
  | none => .ok absent m
  | some body =>
    match edit method.signature.returnType ⟨body, m.references, ()⟩ with
    | .ok a d => .ok a (m.commit t method d)
    | .error e d => .error e (m.commit t method d)

end Module

end CilWeave
