import DocTree.Proofs.KindViews

/-! Trees in source order, however they are made. They break none of the rules, provided that every
command is constructed with its mark in its span, that a base goes only from a command that shows a
paragraph to another one, and that content is of the kinds that checked constructors take. -/
namespace DocTree
open Comment

namespace Comment

def Opens (c : Comment) : Prop :=
  c.contentKind.isBlockCommand = true →
    c.span.isValid = true ∧ c.span.start.shift 1 ≤ c.span.stop

end Comment

/-- What can be made as in `Made` of commands that are constructed with their mark in their span,
where a base goes only from a command that shows a paragraph to another one. -/
inductive MadeOpen (m : Mode) : Root → Prop where
  | seed {t c} {seed : Seed} (built : seed.build m t = .ok c) (opens : c.Opens) :
      MadeOpen m (.node c)
  | paragraph {content p} (all : ∀ c ∈ content, MadeOpen m (.node c))
      (built : Paragraph.build m content = .ok p) : MadeOpen m (.node (.paragraph p))
  | attach {c p answer d} (command : MadeOpen m (.node c)) (paragraph : MadeOpen m (.node p))
      (attached : c.attach p = (answer, d)) : MadeOpen m (.node d)
  | tree {blocks info f} (all : ∀ c ∈ blocks, MadeOpen m (.node c))
      (built : FullComment.build m blocks info = .ok f) : MadeOpen m (.tree f)
  | use {r} (made : MadeOpen m r) (t : CommandTable) (u : Use) : MadeOpen m (r.use m t u)
  | copy {r place c} (made : MadeOpen m r) (here : r.part? place = some c) : MadeOpen m (.node c)
  | ofBase {form base} (made : MadeOpen m (.node (.command form base)))
      (lends : form.showsParagraph = true) : MadeOpen m (.node (.ofBase base))
  | assign {next old form base} (made : MadeOpen m (.node (.command next old)))
      (other : MadeOpen m (.node (.command form base))) (lends : form.showsParagraph = true)
      (takes : next.showsParagraph = true) : MadeOpen m (.node (.command next base))

theorem madeOpen {m r} (made : MadeOpen m r) : Made m r := by
  induction made with
  | seed built => exact .seed built
  | paragraph _ built ih => exact .paragraph ih built
  | attach _ _ attached command paragraph => exact .attach command paragraph attached
  | tree _ built ih => exact .tree ih built
  | use _ t u ih => exact .use ih t u
  | copy _ here ih => exact .copy ih here
  | ofBase _ _ ih => exact .ofBase ih
  | @assign next _ _ _ _ _ _ takes target other =>
    refine .assign target other ?_
    cases next with
    | verbatimLine => cases takes
    | _ => rfl

namespace Comment

theorem changeOpens {P c d} (h : Change P c d) (opens : c.Opens) : d.Opens := by
  intro command
  obtain ⟨valid, reach⟩ := opens (changeContent h ▸ command)
  have grows := changeHeader h
  have start : d.span.start = c.span.start := grows.start
  have forward : c.span.stop ≤ d.span.stop := grows.stop
  rw [start]
  refine ⟨Bool.and_eq_true_iff.mpr ⟨?_, ?_⟩, Nat.le_trans reach forward⟩
  · rw [start]
    exact Span.validStart valid
  · exact Location.validForward forward (Span.validStop valid)

structure Grown (m : Mode) (c : Comment) : Prop where
  shaped : Shaped m c
  opens : c.Opens

theorem seedGrown {m t c} {seed : Seed} (built : seed.build m t = .ok c) (opens : c.Opens) :
    Everywhere (Grown m) c := by
  have all := upheldSeed (shapedUpheld m) built
  have own : Grown m c := ⟨everywhereOwn all, opens⟩
  rcases (Seed.buildBare built).2 with bare | ⟨start, stop, text, rfl⟩
  · exact everywhereAlone own bare
  · refine .paragraph own fun c member => ?_
    have inner := everywhereContent all c member
    cases List.mem_singleton.mp member
    exact .text ⟨everywhereOwn inner, nofun⟩

theorem grownStable (m : Mode) : Stable (Grown m) :=
  stableKept fun {c d} related own =>
    have change : Change (fun _ => True) c d := .read related
    ⟨rereadOwn (shapedUpheld m).stable related own.shaped, changeOpens change own.opens⟩

theorem grownChange {m c d} (h : Change (Everywhere (Grown m)) c d)
    (all : Everywhere (Grown m) c) : Everywhere (Grown m) d := by
  have any : Change (fun _ => True) c d := changeImp (fun _ _ => trivial) h
  have own := everywhereOwn all
  exact changeEverywhere (grownStable m) h
    ⟨(shapedUpheld m).change any own.shaped, changeOpens h own.opens⟩ all

theorem grownMoved {m form next base} (lends : form.showsParagraph = true)
    (takes : next.showsParagraph = true) (all : Everywhere (Grown m) (.command form base)) :
    Everywhere (Grown m) (.command next base) := by
  obtain ⟨shaped, opens⟩ := everywhereOwn all
  exact movedEverywhere ⟨shapedMoved lends takes shaped, fun _ => opens form.isCommand⟩ all

theorem reboundAgrees {c d} (h : Rebound c d) : c.header.Agrees d.header := by
  cases h <;> exact Header.agreesSame _

theorem agreesMap {α : Type} {cs ds : List Comment} {view : Comment → α}
    (same : ∀ {c d}, c.header.Agrees d.header → view d = view c)
    (agrees : List.Forall₂ (fun c d => c.header.Agrees d.header) cs ds) :
    ds.map view = cs.map view := by
  induction agrees with
  | nil => rfl
  | cons first rest ih => exact congrArg₂ List.cons (same first) ih

end Comment

namespace Root

def Framed (m : Mode) : Root → Prop
  | .node _ => True
  | .tree f => f = .ofBlocks f.blocks f.info ∧
      (m = .checked → ∀ k ∈ f.blocks.map Comment.kind, k.isBlockContent = true)

theorem framedBlocks {m : Mode} {f g : FullComment} (header : g.header = f.header)
    (blocks : List.Forall₂ (fun c d => c.header.Agrees d.header) f.blocks g.blocks)
    (framed : (tree f).Framed m) : (tree g).Framed m := by
  obtain ⟨own, checked⟩ := framed
  have spans : g.blocks.map Comment.span = f.blocks.map Comment.span :=
    agreesMap Header.Agrees.span blocks
  have kinds : g.blocks.map Comment.kind = f.blocks.map Comment.kind :=
    agreesMap Header.Agrees.kind blocks
  refine ⟨?_, fun mode => kinds ▸ checked mode⟩
  have same : g.header = (FullComment.ofBlocks g.blocks g.info).header := by
    rw [header, own, FullComment.ofBlocks, FullComment.ofBlocks, spans]
  exact congrArg (FullComment.mk · g.blocks g.info) same

theorem useFramed {m t} (r : Root) (u : Use) (all : ∀ c ∈ r.blocks, Everywhere Cached c)
    (framed : r.Framed m) : (r.use m t u).Framed m := by
  cases r with
  | node c =>
    cases u with
    | inside i => cases i <;> trivial
    | _ => trivial
  | tree f =>
    cases u with
    | act | bind => exact framed
    | visit s =>
      obtain ⟨header, read | bound⟩ := FullComment.stepBlocks t f s all
      · exact framedBlocks header (read.imp fun _ _ => rereadAgrees) framed
      · exact framedBlocks header (bound.imp fun _ _ => reboundAgrees) framed
    | inside i place read =>
      have reread := rereadsModify i fun c member =>
        insideReread (m := m) (t := t) read place (all c member)
      cases i <;> exact framedBlocks (f := f) rfl (reread.imp fun _ _ => rereadAgrees) framed

end Root

theorem openGrown {m r} (made : MadeOpen m r) :
    r.Framed m ∧ ∀ c ∈ r.blocks, Everywhere (Grown m) c := by
  have alone {c} (all : Everywhere (Grown m) c) :
      (Root.node c).Framed m ∧ ∀ d ∈ (Root.node c).blocks, Everywhere (Grown m) d :=
    ⟨trivial, Root.eachNode.mpr all⟩
  induction made with
  | seed built opens => exact alone (seedGrown built opens)
  | @paragraph content _ _ built ih =>
    obtain ⟨inline, rfl⟩ := Paragraph.buildOk built
    refine alone (.paragraph ⟨(shapedUpheld m).paragraph inline, nofun⟩ fun c member => ?_)
    rw [Paragraph.ofContentContent] at member
    exact Root.eachNode.mp (ih c member).2
  | attach _ _ attached command paragraph =>
    have inner := Root.eachNode.mp paragraph.2
    exact alone (grownChange (attachChange inner attached) (Root.eachNode.mp command.2))
  | tree _ built ih =>
    obtain ⟨_, demanded, same⟩ := bindOk.mp built
    cases same
    refine ⟨⟨rfl, fun mode => ?_⟩, fun c member => Root.eachNode.mp (ih c member).2⟩
    rw [List.forall_mem_map]
    exact List.all_eq_true.mp (Mode.demandOk.mp demanded mode)
  | use made t u ih =>
    have cached := madeCached (madeOpen made)
    refine ⟨Root.useFramed _ u cached ih.1, ?_⟩
    refine relatedAll (fun used => ?_) (Root.useEach _ u cached) ih.2
    exact grownChange (changeImp (fun _ => False.elim) (usedChange used))
  | copy _ here ih => exact alone (Root.partEverywhere ih.2 here)
  | ofBase _ lends ih => exact alone (grownMoved lends rfl (Root.eachNode.mp ih.2))
  | assign _ _ lends takes _ other =>
    exact alone (grownMoved lends takes (Root.eachNode.mp other.2))

namespace FullComment

theorem sourceOrderQuiet {m : Mode} {f : FullComment} (made : MadeOpen m (.tree f))
    (fit : m = .unchecked → f.Fits) (ordered : f.InSourceOrder) :
    f.violations = [] ∧ ∀ t steps, ∀ result ∈ f.run t steps, result.2.violations = [] := by
  obtain ⟨⟨same, checked⟩, all⟩ := openGrown made
  have shaped : ∀ c ∈ f.blocks, Everywhere (Shaped m) c := fun c member =>
    everywhereImp (fun _ => Grown.shaped) (all c member)
  have kinds : f.blocks.all (·.kind.isBlockContent) = true := by
    cases m with
    | checked => exact List.all_eq_true.mpr (List.forall_mem_map.mp (checked rfl))
    | unchecked => exact (fit rfl).blocks
  have none : f.violations = [] := by
    rw [same]
    refine rootQuiet (fun c member => ?_) kinds ordered.blocks
    refine blockQuiet (shaped c member) (fun unchecked => (fit unchecked).below c member)
      (ordered.nodes c member) (List.all_eq_true.mp kinds c member) ?_
    rintro form base rfl
    exact (everywhereOwn (all _ member)).opens form.isCommand
  refine ⟨none, fun t steps result member => ?_⟩
  exact (runViolations (shapedUpheld m) t f steps shaped result member).trans none

def sampleContent : List Comment :=
  [.startTag ((StartTag.make (.valid 9) "b").setGreater (.valid 12)),
    .text (.make (.valid 12) (.valid 14) "hi"), .endTag (.make (.valid 14) (.valid 18) "b")]

def sampleParam : BlockCommand Comment :=
  ((BlockCommand.ofKind .paramCommand (.valid 0) (.valid 6) 3).setDirection .input false).setArgs
    [⟨⟨.valid 7, .valid 8⟩, "x"⟩]

def sampleLine : VerbatimBlockLine := .make (.valid 30) "two"

def sampleLines : List VerbatimBlockLine := [.make (.valid 26) "one", sampleLine]

def sampleVerbatim : BlockCommand Comment :=
  let base := BlockCommand.ofKind .verbatimBlock (.valid 20) (.valid 25) 7
  { base with header := base.header.extend sampleLine.header.span.stop }

def sampleTree : FullComment :=
  .ofBlocks [.paragraph (.ofContent []),
    .command (.param none) (sampleParam.setParagraph (.ofContent sampleContent)),
    .command (.verbatimBlock "" .invalid sampleLines) sampleVerbatim]
    (.ofDecl (.constant "" .plain))

theorem sampleQuiet : MadeOpen .checked (.tree sampleTree) ∧ sampleTree.InSourceOrder ∧
    sampleTree.violations = [] := by
  have act {c} (made : MadeOpen .checked (.node c)) (s : Comment.Step) :
      MadeOpen .checked (.node (c.step .checked .empty (.step s)).2) := .use made .empty (.act s)
  have text : (Seed.text (.valid 12) (.valid 14) "hi").build .checked .empty = .ok _ := rfl
  have first : (Seed.startTag (.valid 9) "b").build .checked .empty = .ok _ := rfl
  have last : (Seed.endTag (.valid 14) (.valid 18) "b").build .checked .empty = .ok _ := rfl
  have param : (Seed.param (.valid 0) (.valid 6) (.id 3)).build .checked .empty = .ok _ := rfl
  have verbatim : (Seed.verbatimBlock (.valid 20) (.valid 25) (.id 7)).build .checked .empty =
    .ok _ := rfl
  have leaves : ∀ c ∈ sampleContent, MadeOpen .checked (.node c) := by
    simp only [sampleContent, List.forall_mem_cons]
    exact ⟨act (.seed first nofun) (.setGreater (.valid 12)), .seed text nofun, .seed last nofun,
      List.forall_mem_nil _⟩
  have named : MadeOpen .checked (.node (.command (.param none) sampleParam)) :=
    act (.seed param fun _ => by decide) (.setArgs [⟨⟨.valid 7, .valid 8⟩, "x"⟩])
  have lines : MadeOpen .checked
      (.node (.command (.verbatimBlock "" .invalid sampleLines) sampleVerbatim)) :=
    act (.seed verbatim fun _ => by decide) (.setLines sampleLines)
  have built : FullComment.build .checked sampleTree.blocks sampleTree.info = .ok sampleTree := rfl
  have tree : MadeOpen .checked (.tree sampleTree) := by
    refine .tree ?_ built
    simp only [sampleTree, ofBlocks, List.forall_mem_cons]
    exact ⟨.paragraph (List.forall_mem_nil _) rfl, .attach named (.paragraph leaves rfl) rfl, lines,
      List.forall_mem_nil _⟩
  have ordered : sampleTree.InSourceOrder := by decide
  exact ⟨tree, ordered, (sourceOrderQuiet tree nofun ordered).1⟩

theorem orderedMisplaced :
    let info := DeclInfo.ofDecl (.constant "x" .plain)
    let text := Comment.text (.make (.valid 0) (.valid 2) "hi")
    let base := BlockCommand.ofKind .verbatimBlock (.valid 0) (.valid 1) 7
    let paragraph := Paragraph.ofContent [.text (.make (.valid 2) (.valid 4) "hi")]
    let lent := Comment.ofBase (base.setParagraph paragraph)
    (Made .unchecked (.tree (.ofBlocks [text] info)) ∧ (ofBlocks [text] info).InSourceOrder ∧
      (ofBlocks [text] info).violations = [.misplacedChild .fullComment .text]) ∧
    Made .checked (.tree (.ofBlocks [lent] info)) ∧ (ofBlocks [lent] info).InSourceOrder ∧
      (ofBlocks [lent] info).violations = [.misplacedChild .verbatimBlock .paragraph] := by
  intro info text base paragraph lent
  have near : (Seed.text (.valid 0) (.valid 2) "hi").build .unchecked .empty = .ok _ := rfl
  have far : (Seed.text (.valid 2) (.valid 4) "hi").build .checked .empty = .ok _ := rfl
  have verbatim : (Seed.verbatimBlock (.valid 0) (.valid 1) (.id 7)).build .checked .empty =
    .ok _ := rfl
  have content : Made .checked (.node (.paragraph _)) :=
    .paragraph (List.forall_mem_singleton.mpr (.seed far)) rfl
  have held : Made .checked (.node (.command _ _)) := .attach (.seed verbatim) content rfl
  exact ⟨⟨.tree (List.forall_mem_singleton.mpr (.seed near)) rfl, by decide, by decide⟩,
    .tree (List.forall_mem_singleton.mpr (.ofBase held)) rfl, by decide, by decide⟩

end FullComment
end DocTree
