import DocTree.Node.Whitespace
import DocTree.Snapshot.Json
import DocTree.Text.Record
import DocTree.Tree.Full

/-! Snapshots of trees. Taking one reads whether each paragraph is blank: `snapshot`
gives the answers and `settle` the tree after those reads. -/
namespace DocTree

def argAttributes (args : List Argument) : List (String × String) :=
  args.zipIdx.map fun (arg, i) => (s!"arg{i}", arg.text)

namespace CommandTable

def labelOf (t : CommandTable) (id : UInt16) : String := (t.name? id).getD s!"#{id.toNat}"

end CommandTable

namespace StartTag

def snapshotAttributes (tag : StartTag) : List (String × String) :=
  tag.attributes.map (fun a => ("attr." ++ a.name, a.value?.getD "")) ++
    (if tag.isSelfClosing then [("self_closing", "true")] else [])

end StartTag

namespace Form

def snapshotAttributes (form : Form) (base : BlockCommand Comment) : List (String × String) :=
  let name := match base.args with
    | [] => []
    | first :: _ => [("name", first.text)]
  match form with
  | .block => []
  | .param index =>
    [("direction", base.direction.display), ("explicit", Record.truth base.isDirectionExplicit)] ++
      name ++ index.toList.map fun i => ("index", s!"{i}")
  | .tparam position =>
    name ++ (if position = [] then []
      else [("position", String.intercalate "," (position.map fun i => s!"{i}"))])
  | .verbatimBlock closeName _ _ => [("close", closeName)]
  | .verbatimLine _ text => [("text", text)]

end Form

namespace Comment

def snapshotNode (t : CommandTable) (c : Comment) : Run Snapshot :=
  let leaf := Snapshot.leaf c.kind.name
  match c with
  | .text node => .ok (leaf node.text)
  | .inlineCommand node =>
    .ok ((leaf (t.labelOf node.id)).withAttributes
      (("render", node.style.name) :: argAttributes node.args))
  | .startTag node => .ok ((leaf node.name).withAttributes node.snapshotAttributes)
  | .endTag node => .ok (leaf node.name)
  | .paragraph node => do
    let (blank, _) ← node.readBlank
    return (leaf "").withAttribute "whitespace" (Record.truth blank)
  | .command form base =>
    .ok ((leaf (t.labelOf base.id)).withAttributes
      (form.snapshotAttributes base ++ argAttributes base.args))
  | .verbatimBlockLine node => .ok (leaf node.text)

def snapshot (t : CommandTable) : Comment → Run Snapshot :=
  fold fun c below => do
    let own ← c.snapshotNode t
    let children ← below.mapM id
    return own.withChildren children

theorem snapshot_eq (t : CommandTable) (c : Comment) : c.snapshot t = (do
    let own ← c.snapshotNode t
    let inside ← c.children.mapM (snapshot t)
    return own.withChildren inside) := by
  unfold snapshot
  rw [fold_eq]
  simp [List.mapM_map]

mutual

def settle : Comment → Run Comment
  | .paragraph ⟨h, content⟩ => do
    let content ← settleAll content
    let (_, p) ← Paragraph.readBlank ⟨h, content⟩
    return .paragraph p
  | .command form ⟨h, args, some ⟨ph, content⟩⟩ =>
    if form.showsParagraph then do
      let content ← settleAll content
      let (_, p) ← Paragraph.readBlank ⟨ph, content⟩
      return .command form ⟨h, args, some p⟩
    else .ok (.command form ⟨h, args, some ⟨ph, content⟩⟩)
  | c => .ok c
termination_by structural c => c

def settleAll : List Comment → Run (List Comment)
  | [] => .ok []
  | c :: rest => do
    let c ← settle c
    return c :: (← settleAll rest)
termination_by structural cs => cs

end

end Comment

namespace FullComment

def snapshot (t : CommandTable) (f : FullComment) : Run Snapshot := do
  let children ← f.blocks.mapM (Comment.snapshot t)
  return .node f.kind.name f.declName [] children

def settle (f : FullComment) : Run FullComment := do
  return { f with blocks := ← Comment.settleAll f.blocks }

end FullComment
end DocTree
