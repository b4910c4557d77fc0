import DocTree.Node.Block

/-! What a node can be read as. The kind of its word names the node; the kind of its
content says which reading is there. -/
namespace DocTree

def BlockCommand.textSpan {α : Type} (textStart : Location) (b : BlockCommand α) : Span :=
  ⟨textStart, b.header.span.stop⟩

namespace Comment

def contentKind : Comment → Kind
  | .text _ => .text
  | .inlineCommand _ => .inlineCommand
  | .startTag _ => .startTag
  | .endTag _ => .endTag
  | .paragraph _ => .paragraph
  | .command form _ => form.kind
  | .verbatimBlockLine _ => .verbatimBlockLine

def readsAs (k : Kind) (c : Comment) : Bool := c.contentKind == k

def readsAsA (category : Category) (c : Comment) : Bool := c.contentKind.isA category

end Comment
end DocTree
