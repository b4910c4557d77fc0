import DocTree.Node.Direction
import DocTree.Node.Inline

/-! The comment tree. Five kinds of block commands share one base, and `Form` is what
each of them adds. `children` is the one view of the tree that readers go through, and
`fold` the recursion over it; a paragraph of a verbatim block belongs to its base and
is not among its children. -/
namespace DocTree

structure Paragraph (α : Type) where
  header : Header
  content : List α
  deriving DecidableEq, Repr

structure BlockCommand (α : Type) where
  header : Header
  args : List Argument
  paragraph : Option (Paragraph α)
  deriving DecidableEq, Repr

structure VerbatimBlockLine where
  header : Header
  text : String
  deriving DecidableEq, Repr

inductive Form where
  | block
  | param (index : Option Nat)
  /-- The path to the template parameter it documents; empty as long as it is unknown. -/
  | tparam (position : List Nat)
  | verbatimBlock (closeName : String) (closeLoc : Location) (lines : List VerbatimBlockLine)
  | verbatimLine (textStart : Location) (text : String)
  deriving DecidableEq, Repr

inductive Comment where
  | text (node : Text)
  | inlineCommand (node : InlineCommand)
  | startTag (node : StartTag)
  | endTag (node : EndTag)
  | paragraph (node : Paragraph Comment)
  | command (form : Form) (base : BlockCommand Comment)
  | verbatimBlockLine (node : VerbatimBlockLine)
  deriving Repr

namespace Form

def kind : Form → Kind
  | .block => .blockCommand
  | .param _ => .paramCommand
  | .tparam _ => .tparamCommand
  | .verbatimBlock _ _ _ => .verbatimBlock
  | .verbatimLine _ _ => .verbatimLine

def showsParagraph : Form → Bool
  | .block | .param _ | .tparam _ => true
  | .verbatimBlock _ _ _ | .verbatimLine _ _ => false

def lines : Form → List VerbatimBlockLine
  | .verbatimBlock _ _ lines => lines
  | _ => []

end Form

namespace Comment

def header : Comment → Header
  | .text node => node.header
  | .inlineCommand node => node.header
  | .startTag node => node.header
  | .endTag node => node.header
  | .paragraph node => node.header
  | .command _ base => base.header
  | .verbatimBlockLine node => node.header

def kind (c : Comment) : Kind := c.header.kind
def location (c : Comment) : Location := c.header.location
def span (c : Comment) : Span := c.header.span

def children : Comment → List Comment
  | .paragraph node => node.content
  | .command form base =>
    if form.showsParagraph then (base.paragraph.map Comment.paragraph).toList
    else form.lines.map Comment.verbatimBlockLine
  | _ => []

mutual

def fold {β : Type} (f : Comment → List β → β) : Comment → β
  | .text node => f (.text node) []
  | .inlineCommand node => f (.inlineCommand node) []
  | .startTag node => f (.startTag node) []
  | .endTag node => f (.endTag node) []
  | .paragraph ⟨h, content⟩ => f (.paragraph ⟨h, content⟩) (foldAll f content)
  | .command form ⟨h, args, none⟩ =>
    f (.command form ⟨h, args, none⟩)
      (if form.showsParagraph then []
        else form.lines.map fun line => f (.verbatimBlockLine line) [])
  | .command form ⟨h, args, some ⟨ph, content⟩⟩ =>
    f (.command form ⟨h, args, some ⟨ph, content⟩⟩)
      (if form.showsParagraph then [f (.paragraph ⟨ph, content⟩) (foldAll f content)]
        else form.lines.map fun line => f (.verbatimBlockLine line) [])
  | .verbatimBlockLine node => f (.verbatimBlockLine node) []
termination_by structural c => c

def foldAll {β : Type} (f : Comment → List β → β) : List Comment → List β
  | [] => []
  | c :: rest => fold f c :: foldAll f rest
termination_by structural cs => cs

end

theorem foldAll_eq_map {β : Type} (f : Comment → List β → β) (cs : List Comment) :
    foldAll f cs = cs.map (fold f) := by
  induction cs with
  | nil => simp [foldAll]
  | cons c rest ih => simp [foldAll, ih]

theorem fold_eq {β : Type} (f : Comment → List β → β) (c : Comment) :
    fold f c = f c (c.children.map (fold f)) := by
  rcases c with _ | _ | _ | _ | ⟨h, content⟩ | ⟨form, h, args, _ | ⟨ph, content⟩⟩ | _ <;>
    simp only [fold, children, foldAll_eq_map, List.map_nil]
  · cases form.showsParagraph <;> simp [Function.comp_def, fold]
  · cases form.showsParagraph <;> simp [Function.comp_def, fold, foldAll_eq_map]

theorem induct {P : Comment → Prop} (text : ∀ node, P (.text node))
    (inlineCommand : ∀ node, P (.inlineCommand node)) (startTag : ∀ node, P (.startTag node))
    (endTag : ∀ node, P (.endTag node))
    (paragraph : ∀ node : Paragraph Comment, (∀ c ∈ node.content, P c) → P (.paragraph node))
    (command : ∀ form base,
      (∀ p : Paragraph Comment, base.paragraph = some p → ∀ c ∈ p.content, P c) →
      P (.command form base))
    (verbatimBlockLine : ∀ node, P (.verbatimBlockLine node)) (c : Comment) : P c := by
  refine @Comment.rec P (fun p => ∀ c ∈ p.content, P c)
    (fun b => ∀ p, b.paragraph = some p → ∀ c ∈ p.content, P c) (fun cs => ∀ c ∈ cs, P c)
    (fun o => ∀ p, o = some p → ∀ c ∈ p.content, P c)
    text inlineCommand startTag endTag paragraph command verbatimBlockLine
    (fun _ _ ih => ih) (fun _ _ _ ih => ih) (by simp) ?_ (by simp) ?_ c
  · intro head tail ih ihs c hc
    rcases List.mem_cons.mp hc with rfl | h
    · exact ih
    · exact ihs c h
  · rintro p ih q ⟨⟩
    exact ih

theorem inductChildren {P : Comment → Prop} (step : ∀ c, (∀ d ∈ c.children, P d) → P c)
    (c : Comment) : P c := by
  induction c using induct with
  | text node => exact step _ (by simp [children])
  | inlineCommand node => exact step _ (by simp [children])
  | startTag node => exact step _ (by simp [children])
  | endTag node => exact step _ (by simp [children])
  | verbatimBlockLine node => exact step _ (by simp [children])
  | paragraph node ih => exact step _ ih
  | command form base ih =>
    apply step
    intro d hd
    simp only [children] at hd
    split at hd
    · simp only [Option.mem_toList, Option.map_eq_some_iff] at hd
      obtain ⟨p, hp, rfl⟩ := hd
      exact step _ (ih p hp)
    · simp only [List.mem_map] at hd
      obtain ⟨line, _, rfl⟩ := hd
      exact step _ (by simp [children])

def at? : List Nat → Comment → Option Comment
  | [], c => some c
  | i :: path, c => c.children[i]?.bind (at? path)

end Comment
end DocTree
