/-! Kinds of comment nodes. Kinds are numbered from one, and every category is an
interval of numbers, so belonging to a category is two comparisons. -/
namespace DocTree

inductive Kind where
  | text
  | inlineCommand
  | startTag
  | endTag
  | paragraph
  | blockCommand
  | paramCommand
  | tparamCommand
  | verbatimBlock
  | verbatimLine
  | verbatimBlockLine
  | fullComment
  deriving DecidableEq, Repr

inductive Category where
  | inlineContent
  | htmlTag
  | blockContent
  | blockCommand
  deriving DecidableEq, Repr

namespace Kind

def number : Kind → Nat
  | .text => 1
  | .inlineCommand => 2
  | .startTag => 3
  | .endTag => 4
  | .paragraph => 5
  | .blockCommand => 6
  | .paramCommand => 7
  | .tparamCommand => 8
  | .verbatimBlock => 9
  | .verbatimLine => 10
  | .verbatimBlockLine => 11
  | .fullComment => 12

def ofNumber? : Nat → Option Kind
  | 1 => some .text
  | 2 => some .inlineCommand
  | 3 => some .startTag
  | 4 => some .endTag
  | 5 => some .paragraph
  | 6 => some .blockCommand
  | 7 => some .paramCommand
  | 8 => some .tparamCommand
  | 9 => some .verbatimBlock
  | 10 => some .verbatimLine
  | 11 => some .verbatimBlockLine
  | 12 => some .fullComment
  | _ => none

def name : Kind → String
  | .text => "TextComment"
  | .inlineCommand => "InlineCommandComment"
  | .startTag => "HTMLStartTagComment"
  | .endTag => "HTMLEndTagComment"
  | .paragraph => "ParagraphComment"
  | .blockCommand => "BlockCommandComment"
  | .paramCommand => "ParamCommandComment"
  | .tparamCommand => "TParamCommandComment"
  | .verbatimBlock => "VerbatimBlockComment"
  | .verbatimLine => "VerbatimLineComment"
  | .verbatimBlockLine => "VerbatimBlockLineComment"
  | .fullComment => "FullComment"

def all : List Kind :=
  [.text, .inlineCommand, .startTag, .endTag, .paragraph, .blockCommand, .paramCommand,
    .tparamCommand, .verbatimBlock, .verbatimLine, .verbatimBlockLine, .fullComment]

def ofName? (name : String) : Option Kind := all.find? (·.name == name)

end Kind

namespace Category

def name : Category → String
  | .inlineContent => "InlineContent"
  | .htmlTag => "HtmlTag"
  | .blockContent => "BlockContent"
  | .blockCommand => "BlockCommand"

def first : Category → Kind
  | .inlineContent => .text
  | .htmlTag => .startTag
  | .blockContent => .paragraph
  | .blockCommand => .blockCommand

def last : Category → Kind
  | .inlineContent => .endTag
  | .htmlTag => .endTag
  | .blockContent => .verbatimLine
  | .blockCommand => .verbatimLine

def all : List Category := [.inlineContent, .htmlTag, .blockContent, .blockCommand]

end Category

namespace Kind

def isA (k : Kind) (c : Category) : Bool :=
  decide (c.first.number ≤ k.number) && decide (k.number ≤ c.last.number)

def isInlineContent (k : Kind) : Bool := k.isA .inlineContent
def isHtmlTag (k : Kind) : Bool := k.isA .htmlTag
def isBlockContent (k : Kind) : Bool := k.isA .blockContent
def isBlockCommand (k : Kind) : Bool := k.isA .blockCommand

end Kind
end DocTree
