import DocTree.Proofs.Building

/-! All nodes and trees that can be made, and all that can be done with them: a node is built,
set, read, bound, copied and put into paragraphs, commands and trees, in any order, and a read
may go to any node inside. Whatever comes of it, the caches of all nodes in it hold. -/
namespace DocTree

namespace Comment

/-- The nodes right inside a node, a paragraph that a verbatim block does not show among them.
Lines of verbatim blocks are left to the step that sets them. -/
def inner : Comment → List Comment
  | .paragraph p => p.content
  | .command _ base => (base.paragraph.map Comment.paragraph).toList
  | _ => []

def part? : List Nat → Comment → Option Comment
  | [], c => some c
  | i :: place, c => c.inner[i]?.bind (part? place)

def alter (f : Comment → Comment) : List Nat → Comment → Comment
  | [], c => f c
  | i :: place, .paragraph p => .paragraph { p with content := p.content.modify i (alter f place) }
  | 0 :: place, .command form ⟨h, args, some p⟩ =>
    match alter f place (.paragraph p) with
    | .paragraph q => .command form ⟨h, args, some q⟩
    | _ => .command form ⟨h, args, some p⟩
  | _, c => c

inductive Read where
  | blank
  | nonBlank
  | snapshot
  deriving DecidableEq, Repr

def Read.step : Read → Step
  | .blank => .isBlank
  | .nonBlank => .hasNonBlankParagraph
  | .snapshot => .outline

def readInside (m : Mode) (t : CommandTable) (read : Read) (place : List Nat) (c : Comment) :
    Comment :=
  c.alter (fun d => (d.step m t (.step read.step)).2) place

def rebind (info : DeclInfo) (c : Comment) : Comment :=
  match c.bind info with
  | .ok (_, d, _) => d
  | .error _ => c

end Comment

inductive Root where
  | node (c : Comment)
  | tree (f : FullComment)

inductive Use where
  | act (step : Comment.Step)
  | bind (info : DeclInfo)
  | visit (step : FullComment.Step)
  | inside (i : Nat) (place : List Nat) (read : Comment.Read)

namespace Root

def blocks : Root → List Comment
  | .node c => [c]
  | .tree f => f.blocks

def part? (r : Root) : List Nat → Option Comment
  | [] => none
  | i :: place => r.blocks[i]?.bind (Comment.part? place)

/-- A use that does not fit, or ends in a fault, leaves everything as it was. -/
def use (m : Mode) (t : CommandTable) (u : Use) (r : Root) : Root :=
  match u, r with
  | .act step, .node c => .node (c.step m t (.step step)).2
  | .bind info, .node c => .node (c.rebind info)
  | .visit step, .tree f => .tree (f.step t step).2
  | .inside 0 place read, .node c => .node (c.readInside m t read place)
  | .inside i place read, .tree f =>
    .tree { f with blocks := f.blocks.modify i (Comment.readInside m t read place) }
  | _, r => r

end Root

inductive Made (m : Mode) : Root → Prop where
  | seed {t c} {seed : Seed} (built : seed.build m t = .ok c) : Made m (.node c)
  | paragraph {content p} (all : ∀ c ∈ content, Made m (.node c))
      (built : Paragraph.build m content = .ok p) : Made m (.node (.paragraph p))
  | attach {c p answer d} (command : Made m (.node c)) (paragraph : Made m (.node p))
      (attached : c.attach p = (answer, d)) : Made m (.node d)
  | tree {blocks info f} (all : ∀ c ∈ blocks, Made m (.node c))
      (built : FullComment.build m blocks info = .ok f) : Made m (.tree f)
  | use {r} (made : Made m r) (t : CommandTable) (u : Use) : Made m (r.use m t u)
  | copy {r place c} (made : Made m r) (here : r.part? place = some c) : Made m (.node c)
  | ofBase {form base} (made : Made m (.node (.command form base))) : Made m (.node (.ofBase base))
  | assign {c d form base} (made : Made m (.node c)) (other : Made m (.node (.command form base)))
      (assigned : c.modifyBase? (fun _ => base) = some d) : Made m (.node d)

namespace Comment

theorem everywhereInner {P c} (all : Everywhere P c) : ∀ d ∈ c.inner, Everywhere P d := by
  cases all with
  | paragraph own content => exact content
  | command own paragraph =>
    intro d member
    obtain ⟨p, held, rfl⟩ := Option.map_eq_some_iff.mp (Option.mem_toList.mp member)
    exact paragraph p held
  | _ => simp [inner]

theorem everywherePart {P c n} {place : List Nat} (all : Everywhere P c)
    (here : c.part? place = some n) : Everywhere P n := by
  induction place generalizing c with
  | nil => cases here; exact all
  | cons i place ih =>
    obtain ⟨d, held, here⟩ := Option.bind_eq_some_iff.mp here
    exact ih (everywhereInner all d (List.mem_of_getElem? held)) here

theorem rereadPart {c d} (h : Reread c d) (place : List Nat) :
    Option.Rel Reread (c.part? place) (d.part? place) := by
  have alike (found : Option Comment) : Option.Rel Reread found found := by
    cases found with
    | none => exact .none
    | some n => exact .some (.same n)
  induction h generalizing place with
  | same c => exact alike _
  | @trans a b c first second left right =>
    have early := left place
    have late := right place
    generalize a.part? place = before, b.part? place = between, c.part? place = after at early late
    cases early with
    | none => exact late
    | some reread =>
      cases late with
      | some again => exact .some (.trans reread again)
  | text n =>
    cases place with
    | nil => exact .some (.text n)
    | cons => exact alike none
  | paragraph p =>
    cases place with
    | nil => exact .some (.paragraph p)
    | cons => exact alike _
  | @content h before c d after inside ih =>
    cases place with
    | nil => exact .some (.content inside)
    | cons i place =>
      simp only [part?, inner, List.getElem?_append]
      by_cases left : i < before.length
      · simp only [if_pos left]
        exact alike _
      · simp only [if_neg left]
        generalize i - before.length = j
        cases j with
        | zero => exact ih place
        | succ j => exact alike _
  | command inside ih =>
    cases place with
    | nil => exact .some (.command inside)
    | cons i place =>
      cases i with
      | zero => exact ih place
      | succ i => exact alike none

theorem movedEverywhere {P form next} {base : BlockCommand Comment} (own : P (.command next base))
    (all : Everywhere P (.command form base)) : Everywhere P (.command next base) :=
  .command own fun _ held => everywhereParagraph all held

theorem stepReread {m t c} (read : Read) (all : Everywhere Cached c) :
    Reread c (c.step m t (.step read.step)).2 := by
  unfold step
  cases acted : (Action.step read.step).act m t c with
  | error fault => exact .same c
  | ok result =>
    cases read with
    | blank => exact blankReread acted all
    | nonBlank => exact nonBlankReread acted all
    | snapshot => exact settleReread acted all

theorem rereadsModify {cs : List Comment} {g : Comment → Comment} (i : Nat)
    (each : ∀ c ∈ cs, Reread c (g c)) : List.Forall₂ Reread cs (cs.modify i g) := by
  induction cs generalizing i with
  | nil => simp
  | cons c rest ih =>
    rw [List.forall_mem_cons] at each
    cases i with
    | zero => exact .cons each.1 (rereadsSame rest)
    | succ i => exact .cons (.same c) (ih i each.2)

theorem alterReread {f : Comment → Comment} {place : List Nat}
    (reread : ∀ c, Everywhere Cached c → Reread c (f c)) {c} (all : Everywhere Cached c) :
    Reread c (c.alter f place) := by
  induction place generalizing c with
  | nil => exact reread c all
  | cons i place ih =>
    cases c with
    | paragraph p =>
      have each := rereadsModify i fun d member => ih (everywhereContent all d member)
      exact rereadAll each p.header []
    | command form base =>
      obtain ⟨h, args, _ | p⟩ := base
      · cases i <;> exact .same _
      cases i with
      | succ i => exact .same _
      | zero =>
        have related := ih (everywhereParagraph all rfl)
        obtain ⟨q, same⟩ := rereadParagraph related
        rw [same] at related
        simp only [alter, same]
        exact .command related
    | _ => exact .same _

theorem insideReread {m t c} (read : Read) (place : List Nat) (all : Everywhere Cached c) :
    Reread c (c.readInside m t read place) :=
  alterReread (fun _ => stepReread read) all

inductive Used (t : CommandTable) (u : Use) : Comment → Comment → Prop where
  | read {c d} (reread : Reread c d) : Used t u c d
  | bound {c d} (rebound : Rebound c d) : Used t u c d
  | acted {c d answer step} (cached : Everywhere Cached c) (acting : u = .act step)
      (done : c.perform t step = .ok (answer, d)) : Used t u c d

theorem usedChange {t u c d} (used : Used t u c d) : Change (fun _ => False) c d := by
  cases used with
  | read reread => exact .read reread
  | bound rebound => exact reboundChange rebound
  | acted cached acting done => exact performChange done cached

end Comment

namespace Root
open Comment

theorem eachNode {P : Comment → Prop} {c} : (∀ d ∈ (node c).blocks, P d) ↔ P c := by
  simp [blocks]

theorem partEverywhere {P} {r : Root} {place c} (all : ∀ d ∈ r.blocks, Everywhere P d)
    (here : r.part? place = some c) : Everywhere P c := by
  cases place with
  | nil => cases here
  | cons i place =>
    obtain ⟨d, held, inside⟩ := Option.bind_eq_some_iff.mp here
    exact everywherePart (all d (List.mem_of_getElem? held)) inside

theorem useEach {m t} (r : Root) (u : Use) (all : ∀ c ∈ r.blocks, Everywhere Cached c) :
    List.Forall₂ (Used t u) r.blocks (r.use m t u).blocks := by
  have same (cs : List Comment) : List.Forall₂ (Used t u) cs cs :=
    (rereadsSame cs).imp fun _ _ => .read
  cases r with
  | node c =>
    have one : Everywhere Cached c := eachNode.mp all
    cases u with
    | act s =>
      refine .cons ?_ .nil
      unfold Comment.step
      cases acted : (Action.step s).act m t c with
      | error fault => exact .read (.same c)
      | ok result => exact .acted one rfl acted
    | bind info =>
      refine .cons ?_ .nil
      unfold rebind
      cases bound : c.bind info with
      | error fault => exact .read (.same c)
      | ok result => exact .bound (bindRebound bound)
    | inside i place read =>
      cases i with
      | zero => exact .cons (.read (insideReread read place one)) .nil
      | succ i => exact same _
    | visit s => exact same _
  | tree f =>
    cases u with
    | visit s =>
      rcases (FullComment.stepBlocks t f s all).2 with read | bound
      · exact read.imp fun _ _ => .read
      · exact bound.imp fun _ _ => .bound
    | inside i place read =>
      have reread := rereadsModify i fun c member =>
        insideReread (m := m) (t := t) read place (all c member)
      cases i <;> exact reread.imp fun _ _ => .read
    | act s => exact same _
    | bind info => exact same _

end Root

open Comment in
theorem madeUpheld {m P r} (upheld : Upheld m P)
    (moved : ∀ {form next base}, P (.command form base) → P (.command next base))
    (made : Made m r) : ∀ c ∈ r.blocks, Everywhere P c := by
  have alone {c} : Everywhere P c → ∀ d ∈ (Root.node c).blocks, Everywhere P d :=
    Root.eachNode.mpr
  induction made with
  | seed built => exact alone (upheldSeed upheld built)
  | paragraph _ built ih =>
    have content := fun c member => Root.eachNode.mp (ih c member)
    exact alone (upheldParagraph upheld built content)
  | attach _ _ attached command paragraph =>
    rw [Root.eachNode] at command paragraph
    exact alone (upheldChange upheld (attachChange paragraph attached) command)
  | tree _ built ih =>
    obtain ⟨_, _, same⟩ := bindOk.mp built
    cases same
    exact fun c member => Root.eachNode.mp (ih c member)
  | @use r _ t u ih =>
    refine relatedAll (fun used => ?_)
      (r.useEach u fun c member => upheldCached upheld (ih c member)) ih
    exact upheldChange upheld (changeImp (fun _ => False.elim) (usedChange used))
  | copy _ here ih => exact alone (Root.partEverywhere ih here)
  | ofBase _ ih =>
    rw [Root.eachNode] at ih
    exact alone (movedEverywhere (moved (everywhereOwn ih)) ih)
  | assign _ _ assigned _ other =>
    rw [Root.eachNode] at other
    obtain ⟨_, _, rfl, rfl⟩ := modifyOk assigned
    exact alone (movedEverywhere (moved (everywhereOwn other)) other)

open Comment in
theorem madeCached {m r} (made : Made m r) : ∀ c ∈ r.blocks, Everywhere Cached c :=
  madeUpheld (cachedUpheld m) (fun _ => trivial) made

def Standing (m : Mode) (c : Comment) : Prop :=
  ∃ r place, Made m r ∧ r.part? place = some c

theorem madeStanding {m c} (made : Made m (.node c)) : Standing m c := ⟨_, [0], made, rfl⟩

theorem standingCached {m c} : Standing m c → Comment.Everywhere Comment.Cached c
  | ⟨_, _, made, here⟩ => Root.partEverywhere (madeCached made) here

end DocTree
