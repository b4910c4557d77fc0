import DocTree.Node.Block

/-! One-line descriptions of nodes. -/
namespace DocTree

def StartTag.display (t : StartTag) : String :=
  let attributes := t.attributes.map fun a => " " ++ a.display
  "<" ++ t.name ++ String.join attributes ++ (if t.isSelfClosing then " /" else "") ++ ">"

def BlockCommand.display {α : Type} (form : Form) (b : BlockCommand α) : String :=
  match form with
  | .block =>
    let paragraph := if b.paragraph.isSome then "paragraph" else "no paragraph"
    s!"BlockCommand(#{b.id.toNat}, {b.args.length} args, {paragraph})"
  | .param _ => s!"Param({b.direction.display} {b.shownName})"
  | .tparam _ => s!"TParam({b.shownName})"
  | .verbatimBlock closeName _ lines =>
    s!"VerbatimBlock({lines.length} line(s), closed by '{closeName}')"
  | .verbatimLine _ text => s!"VerbatimLine('{text}')"

def Comment.display : Comment → String
  | .text node => s!"Text('{node.text}')"
  | .inlineCommand node => s!"InlineCommand(#{node.id.toNat}, {node.args.length} args)"
  | .startTag node => node.display
  | .endTag node => "</" ++ node.name ++ ">"
  | .paragraph node => s!"Paragraph({node.content.length} inline(s))"
  | .command form base => base.display form
  | .verbatimBlockLine node => s!"VerbatimBlockLine('{node.text}')"

end DocTree
