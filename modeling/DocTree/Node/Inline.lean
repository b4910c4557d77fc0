import DocTree.Command.Style
import DocTree.Command.Table
import DocTree.Node.Header

/-! Inline nodes: texts, inline commands and tags. None of them has children. -/
namespace DocTree

structure Argument where
  span : Span
  text : String
  deriving DecidableEq, Repr

structure Text where
  header : Header
  text : String
  deriving DecidableEq, Repr

def Text.make (start stop : Location) (text : String) : Text :=
  ⟨.ofSpan .text ⟨start, stop⟩, text⟩

structure InlineCommand where
  header : Header
  args : List Argument
  deriving DecidableEq, Repr

namespace InlineCommand

def make (start stop : Location) (id : UInt16) (style : RenderStyle) (args : List Argument) :
    InlineCommand :=
  let header := Header.ofSpan .inlineCommand ⟨start, stop⟩
  ⟨(header.set Layout.inlineCommandId id.toUInt32).set Layout.renderStyle style.code, args⟩

def id (c : InlineCommand) : UInt16 := (c.header.get Layout.inlineCommandId).toUInt16

def style (c : InlineCommand) : RenderStyle := .ofCode (c.header.get Layout.renderStyle)

def name? (t : CommandTable) (c : InlineCommand) : Option String := t.name? c.id

def nameSpan (c : InlineCommand) : Span :=
  ⟨c.header.span.start.shift (-1), c.header.span.stop⟩

end InlineCommand

structure Attribute where
  nameStart : Location
  name : String
  equals : Location
  valueSpan : Span
  value? : Option String
  deriving DecidableEq, Repr

namespace Attribute

def bare (nameStart : Location) (name : String) : Attribute :=
  ⟨nameStart, name, .invalid, .unset, none⟩

def nameStop (a : Attribute) : Location := a.nameStart.pastText 0 a.name

def nameSpan (a : Attribute) : Span := ⟨a.nameStart, a.nameStop⟩

def stop (a : Attribute) : Location :=
  if a.valueSpan.stop.isValid then a.valueSpan.stop else a.nameStop

def display (a : Attribute) : String :=
  match a.value? with
  | some value => a.name ++ "=\"" ++ value ++ "\""
  | none => a.name

end Attribute

structure StartTag where
  header : Header
  name : String
  nameSpan : Span
  attributes : List Attribute
  deriving DecidableEq, Repr

namespace StartTag

def make (start : Location) (name : String) : StartTag :=
  let stop := start.pastText 1 name
  let nameStart := start.shift 1
  ⟨{ Header.ofSpan .startTag ⟨start, stop⟩ with location := nameStart }, name,
    ⟨nameStart, stop⟩, []⟩

def setAttributes (attributes : List Attribute) (t : StartTag) : StartTag :=
  let header := match attributes.getLast? with
    | some last => t.header.extend last.stop
    | none => t.header
  { t with header, attributes }

def setGreater (loc : Location) (t : StartTag) : StartTag :=
  { t with header := t.header.extend loc }

def isSelfClosing (t : StartTag) : Bool := t.header.flag Layout.selfClosing

def setSelfClosing (t : StartTag) : StartTag :=
  { t with header := t.header.setFlag Layout.selfClosing true }

end StartTag

structure EndTag where
  header : Header
  name : String
  nameSpan : Span
  deriving DecidableEq, Repr

def EndTag.make (start stop : Location) (name : String) : EndTag :=
  let nameStart := start.shift 2
  ⟨{ Header.ofSpan .endTag ⟨start, stop⟩ with location := nameStart }, name,
    ⟨nameStart, start.pastText 2 name⟩⟩

end DocTree
