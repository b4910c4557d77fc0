import DocTree.Decl.Info
import DocTree.Node.Block

/-! Binding parameter commands to the parameters of a declaration: the index of the
first parameter of a name, or the path to the first template parameter of a name,
where a list is read in order and a parameter before its own list. A command that
fails to bind keeps what it was bound to before. -/
namespace DocTree

inductive ResolveError where
  | missingParamName (span : Span)
  | missingTParamName (span : Span)
  | notAFunction (name : String) (span : Span)
  | unknownParameter (name : String) (span : Span)
  | duplicateParameter (name : String) (span : Span) (index : Nat)
  | notATemplate (name : String) (span : Span)
  | unknownTemplateParameter (name : String) (span : Span)
  deriving DecidableEq, Repr

namespace ResolveError

def span : ResolveError → Span
  | .missingParamName span | .missingTParamName span | .notAFunction _ span
  | .unknownParameter _ span | .duplicateParameter _ span _ | .notATemplate _ span
  | .unknownTemplateParameter _ span => span

def name? : ResolveError → Option String
  | .missingParamName _ | .missingTParamName _ => none
  | .notAFunction name _ | .unknownParameter name _ | .duplicateParameter name _ _
  | .notATemplate name _ | .unknownTemplateParameter name _ => some name

def index? : ResolveError → Option Nat
  | .duplicateParameter _ _ index => some index
  | _ => none

def isDuplicate (e : ResolveError) : Bool := e.index?.isSome

def message : ResolveError → String
  | .missingParamName span => s!"\\param command at {span.display} has no parameter name"
  | .missingTParamName span => s!"\\tparam command at {span.display} has no parameter name"
  | .notAFunction name span =>
    s!"\\param '{name}' at {span.display} documents a declaration that is not a function"
  | .unknownParameter name span =>
    s!"parameter '{name}' at {span.display} not found in the function declaration"
  | .duplicateParameter name span _ =>
    s!"parameter '{name}' at {span.display} is already documented"
  | .notATemplate name span =>
    s!"\\tparam '{name}' at {span.display} documents a declaration that is not a template"
  | .unknownTemplateParameter name span =>
    s!"template parameter '{name}' at {span.display} not found in the template declaration"

end ResolveError

def paramIndex? (name : String) (params : List (Option String)) : Option Nat :=
  params.findIdx? (· == some name)

mutual

def pathIn? (name : String) : TemplateParam → Option (List Nat)
  | .mk own none => if own = some name then some [] else none
  | .mk own (some nested) => if own = some name then some [] else pathFrom? name 0 nested
termination_by structural p => p

def pathFrom? (name : String) (index : Nat) : List TemplateParam → Option (List Nat)
  | [] => none
  | p :: rest =>
    match pathIn? name p with
    | some path => some (index :: path)
    | none => pathFrom? name (index + 1) rest
termination_by structural ps => ps

end

def templatePath? (name : String) (params : List TemplateParam) : Option (List Nat) :=
  pathFrom? name 0 params

namespace BlockCommand

variable {α : Type}

def findParam (b : BlockCommand α) (info : DeclInfo) : Except ResolveError Nat × DeclInfo :=
  let span := b.header.span
  match b.args with
  | [] => (.error (.missingParamName span), info)
  | arg :: _ =>
    let (summary, info) := info.fill
    if summary.isFunction then
      match paramIndex? arg.text summary.params with
      | some index => (.ok index, info)
      | none => (.error (.unknownParameter arg.text span), info)
    else (.error (.notAFunction arg.text span), info)

def findTParam (b : BlockCommand α) (info : DeclInfo) :
    Except ResolveError (List Nat) × DeclInfo :=
  let span := b.header.span
  match b.args with
  | [] => (.error (.missingTParamName span), info)
  | arg :: _ =>
    let (summary, info) := info.fill
    match summary.templateParams, summary.isTemplate with
    | some params, true =>
      match templatePath? arg.text params with
      | some path => (.ok path, info)
      | none => (.error (.unknownTemplateParameter arg.text span), info)
    | _, _ => (.error (.notATemplate arg.text span), info)

end BlockCommand

inductive Binding where
  | index (index : Nat)
  | position (path : List Nat)
  | failed (problem : ResolveError)
  deriving DecidableEq, Repr

namespace Comment

def bind (info : DeclInfo) : Comment → Run (Option Binding × Comment × DeclInfo)
  | .command (.param old) base =>
    match base.findParam info with
    | (.ok index, info) => do
      return (some (.index index), .command (← Form.withIndex index) base, info)
    | (.error problem, info) => .ok (some (.failed problem), .command (.param old) base, info)
  | .command (.tparam old) base =>
    match base.findTParam info with
    | (.ok path, info) => do
      return (some (.position path), .command (← Form.withPosition path) base, info)
    | (.error problem, info) => .ok (some (.failed problem), .command (.tparam old) base, info)
  | c => .ok (none, c, info)

def bindTimes (c : Comment) (info : DeclInfo) :
    Nat → Run (List (Option Binding × Comment × DeclInfo))
  | 0 => .ok []
  | times + 1 => do
    let (binding, c, info) ← c.bind info
    return (binding, c, info) :: (← bindTimes c info times)

end Comment

def reportOf (documented : List Nat) (c : Comment) : Option Binding → List ResolveError
  | some (.failed problem) => [problem]
  | some (.index index) =>
    match c with
    | .command _ base =>
      if documented.contains index then
        [.duplicateParameter base.shownName base.header.span index]
      else []
    | _ => []
  | _ => []

structure Resolution where
  blocks : List Comment
  problems : List ResolveError
  info : DeclInfo

def resolveFrom (documented : List Nat) (info : DeclInfo) : List Comment → Run Resolution
  | [] => .ok ⟨[], [], info⟩
  | c :: rest => do
    let (binding, block, info) ← c.bind info
    let seen := match binding with
      | some (.index index) => index :: documented
      | _ => documented
    let after ← resolveFrom seen info rest
    return ⟨block :: after.blocks, reportOf documented block binding ++ after.problems, after.info⟩

def resolveBlocks (info : DeclInfo) (blocks : List Comment) : Run Resolution :=
  resolveFrom [] info blocks

def resolveTimes (info : DeclInfo) (blocks : List Comment) : Nat → Run (List Resolution)
  | 0 => .ok []
  | times + 1 => do
    let r ← resolveBlocks info blocks
    return r :: (← resolveTimes r.info r.blocks times)

end DocTree
