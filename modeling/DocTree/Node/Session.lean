import DocTree.Tree.Snapshot

/-! Steps on one node: changing it and asking it. A step that a node has no use for is
refused and leaves the node alone. -/
namespace DocTree.Comment

inductive Step where
  | look
  | copy
  | addNewline
  | setArgs (args : List Argument)
  | setDirection (direction : Direction) (explicit : Bool)
  | setIndex (index : Nat)
  | setPosition (position : List Nat)
  | setAttributes (attributes : List Attribute)
  | setGreater (loc : Location)
  | setSelfClosing
  | setLines (lines : List VerbatimBlockLine)
  | setClose (name : String) (loc : Location)
  | isBlank
  | hasNonBlankParagraph
  | arg (index : Nat)
  | tagAttribute (index : Nat)
  | line (index : Nat)
  | paramIndex
  | nameArg
  | position
  | depth
  | positionAt (depth : Nat)
  | walk
  | paramNames
  | outline
  | json
  deriving DecidableEq, Repr

inductive Answer where
  | node
  | truth (value : Bool)
  | arg (count : Nat) (arg : Argument)
  | tagAttribute (count : Nat) (found : Attribute)
  | line (count : Nat) (text : String)
  | number (n : Nat)
  | name (arg : Argument)
  | position (path : List Nat)
  | events (events : List Event)
  | names (names : List (Nat × String))
  | text (text : String)
  | refused
  deriving DecidableEq, Repr

def changed (c : Comment) : Option Comment → Answer × Comment
  | some next => (.node, next)
  | none => (.refused, c)

def args? : Comment → Option (List Argument)
  | .inlineCommand node => some node.args
  | .command _ base => some base.args
  | _ => none

def positionOf : List Nat → Run (List Nat)
  | [] => .error .unresolvedPosition
  | position => .ok position

def indexOf : Option Nat → Run Nat
  | none => .error .unresolvedIndex
  | some index => .ok index

def performParam (step : Step) (form : Form) (base : BlockCommand Comment) :
    Run (Answer × Comment) :=
  let c := Comment.command form base
  match form, step with
  | .param index, .setDirection d explicit =>
    .ok (.node, .command (.param index) (base.setDirection d explicit))
  | .param _, .setIndex index => do return (.node, .command (← Form.withIndex index) base)
  | .param index, .paramIndex => do return (.number (← indexOf index), c)
  | .param _, .nameArg | .tparam _, .nameArg => do return (.name (← base.nameArg), c)
  | .tparam _, .setPosition path => do return (.node, .command (← Form.withPosition path) base)
  | .tparam path, .position => do return (.position (← positionOf path), c)
  | .tparam path, .depth => do return (.number (← positionOf path).length, c)
  | .tparam path, .positionAt depth => do
    return (.number (← entryAt (← positionOf path) depth), c)
  | _, _ => .ok (.refused, c)

def performTag (step : Step) (tag : StartTag) : Run (Answer × Comment) :=
  match step with
  | .setAttributes attributes => .ok (.node, .startTag (tag.setAttributes attributes))
  | .setGreater loc => .ok (.node, .startTag (tag.setGreater loc))
  | .setSelfClosing => .ok (.node, .startTag tag.setSelfClosing)
  | .tagAttribute index => do
    return (.tagAttribute tag.attributes.length (← entryAt tag.attributes index), .startTag tag)
  | _ => .ok (.refused, .startTag tag)

def performBlank : Comment → Run (Answer × Comment)
  | .text node => do
    let (blank, node) ← node.readBlank
    return (.truth blank, .text node)
  | .paragraph node => do
    let (blank, node) ← node.readBlank
    return (.truth blank, .paragraph node)
  | c => .ok (.refused, c)

def performNonBlank : Comment → Run (Answer × Comment)
  | .command form base => do
    let (nonBlank, base) ← base.readNonBlank
    return (.truth nonBlank, .command form base)
  | c => .ok (.refused, c)

def performLine (index : Nat) (c : Comment) : Run (Answer × Comment) :=
  match c with
  | .command (.verbatimBlock _ _ lines) _ => do
    return (.line lines.length (← entryAt lines index).text, c)
  | _ => .ok (.refused, c)

def performArg (index : Nat) (c : Comment) : Run (Answer × Comment) :=
  match c.args? with
  | some args => do return (.arg args.length (← entryAt args index), c)
  | none => .ok (.refused, c)

def perform (t : CommandTable) (step : Step) (c : Comment) : Run (Answer × Comment) :=
  match step with
  | .look | .copy => .ok (.node, c)
  | .addNewline => .ok (c.changed c.addTrailingNewline?)
  | .setArgs args => .ok (c.changed (c.modifyBase? (·.setArgs args)))
  | .setLines lines => .ok (c.changed (c.setLines? lines))
  | .setClose name loc => .ok (c.changed (c.setClose? name loc))
  | .isBlank => performBlank c
  | .hasNonBlankParagraph => performNonBlank c
  | .arg index => c.performArg index
  | .line index => c.performLine index
  | .walk => .ok (.events c.events, c)
  | .paramNames => do return (.names (← c.paramNames), c)
  | .outline => do return (.text (← c.snapshot t).outline, ← c.settle)
  | .json => do return (.text (← c.snapshot t).json, ← c.settle)
  | step =>
    match c with
    | .command form base => performParam step form base
    | .startTag tag => performTag step tag
    | c => .ok (.refused, c)

end DocTree.Comment
