import DocTree.Fault
import DocTree.Node.Comment

/-! Building block nodes and attaching things to them. Whatever is attached can only
move the end of a node's span forward. -/
namespace DocTree

def VerbatimBlockLine.make (start : Location) (text : String) : VerbatimBlockLine :=
  ⟨.ofSpan .verbatimBlockLine ⟨start, start.pastText 0 text⟩, text⟩

namespace Paragraph

/-- A paragraph spans its content. Without content it is known to be blank. -/
def ofContent : List Comment → Paragraph Comment
  | [] =>
    ⟨((Header.ofSpan .paragraph .unset).setFlag Layout.paragraphWhitespace true).setFlag
      Layout.paragraphWhitespaceValid true, []⟩
  | content => ⟨.ofSpan .paragraph (.hull (content.map Comment.span)), content⟩

def build (m : Mode) (content : List Comment) : Run (Paragraph Comment) := do
  m.demand (content.all (·.kind.isInlineContent)) .paragraphContent
  return ofContent content

def text (p : Paragraph Comment) : String :=
  String.join (p.content.filterMap fun
    | .text node => some node.text
    | _ => none)

end Paragraph

namespace BlockCommand

variable {α : Type}

def ofKind (k : Kind) (start stop : Location) (id : UInt16) : BlockCommand α :=
  let header := { Header.ofSpan k ⟨start, stop⟩ with location := start.shift 1 }
  ⟨header.set Layout.blockCommandId id.toUInt32, [], none⟩

def id (b : BlockCommand α) : UInt16 := (b.header.get Layout.blockCommandId).toUInt16

def name? (t : CommandTable) (b : BlockCommand α) : Option String := t.name? b.id

def nameStart (b : BlockCommand α) : Location := b.header.span.start.shift 1

def nameSpan? (t : CommandTable) (b : BlockCommand α) : Option Span :=
  (b.name? t).map fun name => ⟨b.nameStart, b.header.span.start.pastText 1 name⟩

def setArgs (args : List Argument) (b : BlockCommand α) : BlockCommand α :=
  let header := match args.getLast? with
    | some last => b.header.extend last.span.stop
    | none => b.header
  { b with header, args }

def setParagraph (p : Paragraph α) (b : BlockCommand α) : BlockCommand α :=
  { b with header := b.header.extend p.header.span.stop, paragraph := some p }

def hasName (b : BlockCommand α) : Bool := !b.args.isEmpty

def nameArg (b : BlockCommand α) : Run Argument := entryAt b.args 0

def shownName (b : BlockCommand α) : String :=
  match b.args with
  | [] => ""
  | first :: _ => first.text

def direction (b : BlockCommand α) : Direction := .ofCode (b.header.get Layout.direction)

def isDirectionExplicit (b : BlockCommand α) : Bool := b.header.flag Layout.directionExplicit

def setDirection (d : Direction) (explicit : Bool) (b : BlockCommand α) : BlockCommand α :=
  { b with
    header := (b.header.set Layout.direction d.code).setFlag Layout.directionExplicit explicit }

end BlockCommand

namespace Form

def sentinel : Nat := 18446744073709551615

def withIndex (index : Nat) : Run Form :=
  if index = sentinel then .error .sentinelIndex else .ok (.param (some index))

def withPosition (position : List Nat) : Run Form :=
  if position = [] then .error .emptyPosition else .ok (.tparam position)

theorem withIndexOk {index form} (h : withIndex index = .ok form) : form = .param (some index) := by
  unfold withIndex at h
  split at h
  · contradiction
  · exact (Except.ok.inj h).symm

theorem withPositionOk {position form} (h : withPosition position = .ok form) :
    form = .tparam position := by
  unfold withPosition at h
  split at h
  · contradiction
  · exact (Except.ok.inj h).symm

end Form

namespace Comment

def block (start stop : Location) (id : UInt16) : Comment :=
  .command .block (.ofKind .blockCommand start stop id)

def param (start stop : Location) (id : UInt16) : Comment :=
  .command (.param none) ((BlockCommand.ofKind .paramCommand start stop id).setDirection .input false)

def tparam (start stop : Location) (id : UInt16) : Comment :=
  .command (.tparam []) (.ofKind .tparamCommand start stop id)

def verbatimBlock (start stop : Location) (id : UInt16) : Comment :=
  .command (.verbatimBlock "" .invalid []) (.ofKind .verbatimBlock start stop id)

def verbatimLine (start stop : Location) (id : UInt16) (textStart : Location) (text : String) :
    Comment :=
  .command (.verbatimLine textStart text) (.ofKind .verbatimLine start stop id)

def base? : Comment → Option (BlockCommand Comment)
  | .command _ base => some base
  | _ => none

def ofBase (base : BlockCommand Comment) : Comment := .command .block base

def modifyBase? (f : BlockCommand Comment → BlockCommand Comment) : Comment → Option Comment
  | .command (.verbatimLine _ _) _ => none
  | .command form base => some (.command form (f base))
  | _ => none

def setLines? (lines : List VerbatimBlockLine) : Comment → Option Comment
  | .command (.verbatimBlock closeName closeLoc _) base =>
    let header := match lines.getLast? with
      | some last => base.header.extend last.header.span.stop
      | none => base.header
    some (.command (.verbatimBlock closeName closeLoc lines) { base with header })
  | _ => none

def setClose? (closeName : String) (closeLoc : Location) : Comment → Option Comment
  | .command (.verbatimBlock _ _ lines) base =>
    some (.command (.verbatimBlock closeName closeLoc lines) base)
  | _ => none

def trailingNewline? : Comment → Option Bool
  | .text node => some (node.header.flag Layout.trailingNewline)
  | .inlineCommand node => some (node.header.flag Layout.trailingNewline)
  | .startTag node => some (node.header.flag Layout.trailingNewline)
  | .endTag node => some (node.header.flag Layout.trailingNewline)
  | _ => none

def addTrailingNewline? : Comment → Option Comment
  | .text node =>
    some (.text { node with header := node.header.setFlag Layout.trailingNewline true })
  | .inlineCommand node =>
    some (.inlineCommand { node with header := node.header.setFlag Layout.trailingNewline true })
  | .startTag node =>
    some (.startTag { node with header := node.header.setFlag Layout.trailingNewline true })
  | .endTag node =>
    some (.endTag { node with header := node.header.setFlag Layout.trailingNewline true })
  | _ => none

end Comment
end DocTree
