import DocTree.Node.View
import DocTree.Node.Whitespace
import DocTree.Tree.Full
import DocTree.Tree.Mismatch

/-! Expectations on a tree. They are checked in order up to the first mismatch; asking
whether a paragraph is blank reads its cache, so a check also gives the tree after it. -/
namespace DocTree

inductive ParagraphExpectation where
  | text (text : String)
  | blank (expected : Bool)
  | childCount (count : Nat)
  deriving DecidableEq, Repr

inductive ParamExpectation where
  | name (name : String)
  | direction (direction : Direction) (explicit : Bool)
  | index (index : Nat)
  | unresolved
  deriving DecidableEq, Repr

inductive TParamExpectation where
  | name (name : String)
  | position (path : List Nat)
  | unresolved
  deriving DecidableEq, Repr

inductive NodeExpectation where
  | kind (kind : Kind)
  | childCount (count : Nat)
  | span (span : Span)
  | child (index : Nat) (inside : List NodeExpectation)
  | text (text : String)
  | paragraph (inside : List ParagraphExpectation)
  | param (inside : List ParamExpectation)
  | tparam (inside : List TParamExpectation)
  deriving Repr

inductive TreeExpectation where
  | blockCount (count : Nat)
  | block (index : Nat) (inside : List NodeExpectation)
  | span (span : Span)
  | noSpan
  deriving Repr

def expecting {α : Type} (holds : Bool) (cause : α) : Option α :=
  if holds then none else some cause

open NodeMismatch (Cause)

namespace ParagraphExpectation

def check (p : Paragraph Comment) :
    ParagraphExpectation → Run (Option Cause × Paragraph Comment)
  | .text expected => .ok (expecting (p.text == expected) .paragraphText, p)
  | .childCount count => .ok (expecting (p.content.length == count) .paragraphChildren, p)
  | .blank expected => do
    let (found, p) ← p.readBlank
    return (expecting (found == expected) .paragraphBlank, p)

def checkAll (p : Paragraph Comment) :
    List ParagraphExpectation → Run (Option Cause × Paragraph Comment)
  | [] => .ok (none, p)
  | e :: rest => do
    match ← e.check p with
    | (none, p) => checkAll p rest
    | failed => return failed

end ParagraphExpectation

def BlockCommand.checkName {α : Type} (command expected : String) (b : BlockCommand α) :
    Option Cause :=
  match b.args with
  | [] => some (.noName command)
  | first :: _ => expecting (first.text == expected) (.otherName command)

namespace ParamExpectation

def check (index : Option Nat) (b : BlockCommand Comment) : ParamExpectation → Option Cause
  | .name expected => b.checkName "param" expected
  | .direction expected explicit =>
    (expecting (b.direction == expected) .direction).or
      (expecting (b.isDirectionExplicit == explicit) .explicitDirection)
  | .index expected =>
    match index with
    | none => some (.unresolvedIndex expected)
    | some found => expecting (found == expected) .otherIndex
  | .unresolved => index.map Cause.resolvedIndex

end ParamExpectation

namespace TParamExpectation

def check (position : List Nat) (b : BlockCommand Comment) : TParamExpectation → Option Cause
  | .name expected => b.checkName "tparam" expected
  | .position expected =>
    if position = [] then some (.unresolvedPosition expected)
    else expecting (position == expected) .otherPosition
  | .unresolved => expecting (position == []) (.resolvedPosition position)

end TParamExpectation

namespace Comment

def replaceChild (parent : Comment) (index : Nat) (child : Comment) : Comment :=
  match parent with
  | .paragraph p => .paragraph { p with content := p.content.set index child }
  | .command form base =>
    match form.showsParagraph, child with
    | true, .paragraph p => .command form { base with paragraph := some p }
    | _, _ => parent
  | _ => parent

def checkText (expected : String) : Comment → Option Cause
  | .text node => expecting (node.text == expected) .text
  | c => some (.kind .text c.kind)

def checkParagraph (inside : List ParagraphExpectation) : Comment → Run (Option Cause × Comment)
  | .paragraph p => do
    let (cause, p) ← ParagraphExpectation.checkAll p inside
    return (cause, .paragraph p)
  | c => .ok (some (.kind .paragraph c.kind), c)

def checkParam (inside : List ParamExpectation) : Comment → Option Cause
  | .command (.param index) base => inside.findSome? (·.check index base)
  | c => some (.kind .paramCommand c.kind)

def checkTParam (inside : List TParamExpectation) : Comment → Option Cause
  | .command (.tparam position) base => inside.findSome? (·.check position base)
  | c => some (.kind .tparamCommand c.kind)

end Comment

namespace NodeExpectation

mutual

def check (place : List Nat) :
    NodeExpectation → Comment → Run (Option NodeMismatch × Comment)
  | .kind expected, c =>
    .ok ((expecting (c.kind == expected) (.kind expected c.kind)).map (⟨place, ·⟩), c)
  | .childCount count, c =>
    .ok ((expecting (c.children.length == count)
      (.childCount count (c.children.map Comment.kind))).map (⟨place, ·⟩), c)
  | .span expected, c => .ok ((expecting (c.span == expected) .span).map (⟨place, ·⟩), c)
  | .child index inside, c =>
    match c.children[index]? with
    | none => .ok (some ⟨place, .noChild index c.children.length⟩, c)
    | some found => do
      let (mismatch, found) ← checkAll (place ++ [index]) inside found
      return (mismatch, c.replaceChild index found)
  | .text expected, c => .ok ((c.checkText expected).map (⟨place, ·⟩), c)
  | .paragraph inside, c => do
    let (cause, c) ← c.checkParagraph inside
    return (cause.map (⟨place, ·⟩), c)
  | .param inside, c => .ok ((c.checkParam inside).map (⟨place, ·⟩), c)
  | .tparam inside, c => .ok ((c.checkTParam inside).map (⟨place, ·⟩), c)
termination_by structural e => e

def checkAll (place : List Nat) :
    List NodeExpectation → Comment → Run (Option NodeMismatch × Comment)
  | [], c => .ok (none, c)
  | e :: rest, c => do
    match ← check place e c with
    | (none, c) => checkAll place rest c
    | failed => return failed
termination_by structural es => es

end

end NodeExpectation

namespace TreeExpectation

def check (f : FullComment) : TreeExpectation → Run (Option Mismatch × FullComment)
  | .blockCount count =>
    .ok (expecting (f.blocks.length == count) (.blockCount count (f.blocks.map Comment.kind)), f)
  | .block index inside =>
    match f.blocks[index]? with
    | none => .ok (some (.noBlock index f.blocks.length), f)
    | some found => do
      let (mismatch, found) ← NodeExpectation.checkAll [index] inside found
      return (mismatch.map .node, { f with blocks := f.blocks.set index found })
  | .span expected => .ok (expecting (f.span == expected) .span, f)
  | .noSpan => .ok (expecting (!f.span.isValid) (.validSpan f.span), f)

end TreeExpectation

def FullComment.check (f : FullComment) :
    List TreeExpectation → Run (Option Mismatch × FullComment)
  | [] => .ok (none, f)
  | e :: rest => do
    match ← e.check f with
    | (none, f) => check f rest
    | failed => return failed

end DocTree
