import DocTree.Node.Block

/-! Blank texts and paragraphs. The first read of a node stores its answer in the
node's word; reading a paragraph reads its texts up to the first child that is not a
blank text. -/
namespace DocTree

def isBlankChar (c : Char) : Bool :=
  c == ' ' || c == '\t' || c == '\n' || c == '\r' || c == '\x0b' || c == '\x0c'

def isBlank (text : String) : Bool := text.toList.all isBlankChar

namespace Text

def cachedBlank? (t : Text) : Option Bool := t.header.word.cached? Layout.textCache

def readBlank (t : Text) : Run (Bool × Text) := do
  let compute (s : Unit) : Run (Bool × Unit) := .ok (isBlank t.text, s)
  let (blank, _, word) ← t.header.word.readCache Layout.textCache compute ()
  return (blank, { t with header := { t.header with word } })

end Text

def readBlankContent : List Comment → Run (Bool × List Comment)
  | [] => .ok (true, [])
  | .text node :: rest => do
    let (blank, node) ← node.readBlank
    if blank then
      let (restBlank, rest) ← readBlankContent rest
      return (restBlank, .text node :: rest)
    else return (false, .text node :: rest)
  | c :: rest => .ok (false, c :: rest)

namespace Paragraph

def cachedBlank? (p : Paragraph Comment) : Option Bool :=
  p.header.word.cached? Layout.paragraphCache

def readBlank (p : Paragraph Comment) : Run (Bool × Paragraph Comment) := do
  let (blank, content, word) ←
    p.header.word.readCache Layout.paragraphCache readBlankContent p.content
  return (blank, ⟨{ p.header with word }, content⟩)

end Paragraph

def BlockCommand.readNonBlank (b : BlockCommand Comment) : Run (Bool × BlockCommand Comment) :=
  match b.paragraph with
  | none => .ok (false, b)
  | some p => do
    let (blank, p) ← p.readBlank
    return (!blank, { b with paragraph := some p })

end DocTree
