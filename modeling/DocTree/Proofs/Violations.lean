import DocTree.Proofs.Paths
import DocTree.Tree.Check

/-! What the check of a tree reports. `Breaks` says which rules a tree breaks, path by path and
without the recursion of the check; the check reports these and nothing else, each once. -/
namespace DocTree

def Kind.holds : Kind → List Kind
  | .fullComment =>
    [.paragraph, .blockCommand, .paramCommand, .tparamCommand, .verbatimBlock, .verbatimLine]
  | .paragraph => [.text, .inlineCommand, .startTag, .endTag]
  | .blockCommand | .paramCommand | .tparamCommand => [.paragraph]
  | .verbatimBlock => [.verbatimBlockLine]
  | _ => []

theorem Kind.allowsHolds (parent child : Kind) :
    parent.allows child = true ↔ child ∈ parent.holds := by
  cases parent <;> cases child <;> decide

def Span.Within (s : Span) (loc : Location) : Prop := s.start ≤ loc ∧ loc ≤ s.stop

namespace Header

inductive Breaks (h : Header) : Violation → Prop where
  | inverted (valid : h.span.isValid) (backwards : h.span.stop < h.span.start) :
      Breaks h (.invertedSpan h.kind h.span)
  | location (valid : h.span.isValid) (placed : h.location.isValid)
      (outside : ¬ h.span.Within h.location) :
      Breaks h (.locationOutsideSpan h.kind h.location h.span)

inductive BreaksAbove (child parent : Header) : Violation → Prop where
  | misplaced (forbidden : child.kind ∉ parent.kind.holds) :
      BreaksAbove child parent (.misplacedChild parent.kind child.kind)
  | outside (valid : parent.span.isValid) (placed : child.span.isValid)
      (outside : ¬ (parent.span.Within child.span.start ∧ parent.span.Within child.span.stop)) :
      BreaksAbove child parent
        (.childOutsideParent parent.kind parent.span child.kind child.span)

variable {h parent child : Header} {v : Violation}

theorem containsWithin {s : Span} {loc : Location} (valid : s.isValid) (placed : loc.isValid) :
    s.contains loc = true ↔ s.Within loc := by
  simp [Span.contains, Span.Within, valid, placed]

theorem enclosesWithin {s inner : Span} (valid : s.isValid) (placed : inner.isValid) :
    s.encloses inner = true ↔ s.Within inner.start ∧ s.Within inner.stop := by
  have ends : inner.start.isValid ∧ inner.stop.isValid := by simpa [Span.isValid] using placed
  unfold Span.encloses
  rw [Bool.and_eq_true, containsWithin valid ends.1, containsWithin valid ends.2]

theorem violationsBreaks : v ∈ h.violations ↔ h.Breaks v := by
  unfold violations
  rw [List.mem_append, List.mem_ite_nil_right, List.mem_ite_nil_right, List.mem_singleton,
    List.mem_singleton]
  constructor
  · rintro (⟨backwards, rfl⟩ | ⟨located, rfl⟩)
    · simp only [Span.isInverted, Bool.and_eq_true, decide_eq_true_eq] at backwards
      exact .inverted backwards.1 backwards.2
    · simp only [Bool.and_eq_true, Bool.not_eq_true'] at located
      obtain ⟨⟨valid, placed⟩, outside⟩ := located
      refine .location valid placed fun within => ?_
      rw [(containsWithin valid placed).mpr within] at outside
      contradiction
  · intro broken
    cases broken with
    | inverted valid backwards => exact .inl ⟨by simp [Span.isInverted, valid, backwards], rfl⟩
    | location valid placed outside =>
      rw [← containsWithin valid placed] at outside
      exact .inr ⟨by simp [valid, placed, outside], rfl⟩

theorem edgeViolationsBreaks : v ∈ parent.edgeViolations child ↔ child.BreaksAbove parent v := by
  unfold edgeViolations
  rw [List.mem_append, List.mem_ite_nil_left, List.mem_ite_nil_right, List.mem_singleton,
    List.mem_singleton]
  constructor
  · rintro (⟨forbidden, rfl⟩ | ⟨enclosed, rfl⟩)
    · exact .misplaced (mt (Kind.allowsHolds _ _).mpr forbidden)
    · simp only [Bool.and_eq_true, Bool.not_eq_true'] at enclosed
      obtain ⟨⟨valid, placed⟩, outside⟩ := enclosed
      refine .outside valid placed fun within => ?_
      rw [(enclosesWithin valid placed).mpr within] at outside
      contradiction
  · intro broken
    cases broken with
    | misplaced forbidden => exact .inl ⟨mt (Kind.allowsHolds _ _).mp forbidden, rfl⟩
    | outside valid placed outside =>
      rw [← enclosesWithin valid placed] at outside
      exact .inr ⟨by simp [valid, placed, outside], rfl⟩

theorem reportsDistinct (parent child : Header) :
    (parent.edgeViolations child ++ child.violations).Nodup := by
  unfold edgeViolations violations
  split <;> split <;> split <;> split <;> simp

end Header

abbrev Finding := List Nat × Violation

/-- The rules broken in a tree, given by the headers that stand at its paths. A rule between a
node and its parent is broken at the path of the node. -/
inductive Broken (headers : List Nat → Option Header) : List Nat → Violation → Prop where
  | node {path h v} (here : headers path = some h) (broken : h.Breaks v) : Broken headers path v
  | edge {path i parent child v} (above : headers path = some parent)
      (here : headers (path ++ [i]) = some child) (broken : child.BreaksAbove parent v) :
      Broken headers (path ++ [i]) v

namespace Comment

def headerAt? (c : Comment) (path : List Nat) : Option Header := (c.at? path).map Comment.header

def findings : Comment → Header → List Finding :=
  fold fun c inner parent =>
    (parent.edgeViolations c.header ++ c.header.violations).map (([] : List Nat), ·) ++
      inChildren (inner.map fun found => found c.header)

theorem findings_eq (c : Comment) (parent : Header) : c.findings parent =
    (parent.edgeViolations c.header ++ c.header.violations).map (([] : List Nat), ·) ++
      inChildren (c.children.map fun d => d.findings c.header) := by
  simp only [findings]
  rw [fold_eq]
  simp [Function.comp_def]

theorem findingsReports (c : Comment) (parent : Header) :
    (c.findings parent).map Prod.snd = c.violationsUnder parent := by
  induction c using inductChildren generalizing parent with
  | step c ih =>
    have below : c.children.flatMap (fun d => (d.findings c.header).map Prod.snd) =
        c.children.flatMap fun d => d.violationsUnder c.header :=
      List.flatMap_congr fun d member => ih d member c.header
    rw [findings_eq, violationsUnder_eq, List.map_append, inChildrenEntries, List.flatMap_map,
      below, List.map_map]
    simp [Function.comp_def]

theorem findingsDistinct (c : Comment) (parent : Header) : (c.findings parent).Nodup := by
  induction c using inductChildren generalizing parent with
  | step c ih =>
    rw [findings_eq, List.nodup_append]
    refine ⟨?_, inChildrenDistinct ?_, ?_⟩
    · exact (Header.reportsDistinct parent c.header).map fun v w same => (Prod.ext_iff.mp same).2
    · intro inner member
      obtain ⟨d, child, rfl⟩ := List.mem_map.mp member
      exact ih d child c.header
    · rintro _ own _ deeper rfl
      obtain ⟨v, _, rfl⟩ := List.mem_map.mp own
      exact inChildrenRoot deeper

end Comment

section

variable {headers : List Nat → Option Header} {children : List Comment} {h : Header}
  {v : Violation}

theorem brokenRoot (top : headers [] = some h) : Broken headers [] v ↔ h.Breaks v := by
  constructor
  · intro broken
    generalize root : [] = path at broken
    cases broken with
    | node here broken =>
      subst root
      cases top.symm.trans here
      exact broken
    | edge => simp at root
  · exact .node top

theorem brokenChild (top : headers [] = some h)
    (inner : ∀ i path, headers (i :: path) = children[i]?.bind (·.headerAt? path))
    {i : Nat} {path : List Nat} :
    Broken headers (i :: path) v ↔ ∃ c, children[i]? = some c ∧
      (path = [] ∧ c.header.BreaksAbove h v ∨ Broken c.headerAt? path v) := by
  constructor
  · intro broken
    generalize whole : i :: path = place at broken
    cases broken with
    | node here broken =>
      subst whole
      rw [inner, Option.bind_eq_some_iff] at here
      obtain ⟨c, held, here⟩ := here
      exact ⟨c, held, .inr (.node here broken)⟩
    | @edge before j parent child v above here broken =>
      cases before with
      | nil =>
        cases whole
        rw [List.nil_append, inner, Option.bind_eq_some_iff] at here
        obtain ⟨c, held, here⟩ := here
        cases top.symm.trans above
        cases here
        exact ⟨c, held, .inl ⟨rfl, broken⟩⟩
      | cons k before =>
        cases whole
        rw [inner, Option.bind_eq_some_iff] at above
        rw [List.cons_append, inner, Option.bind_eq_some_iff] at here
        obtain ⟨c, held, above⟩ := above
        obtain ⟨d, same, here⟩ := here
        cases held.symm.trans same
        exact ⟨c, held, .inr (.edge above here broken)⟩
  · rintro ⟨c, held, ⟨rfl, broken⟩ | broken⟩
    · have here : headers ([] ++ [i]) = some c.header := by
        rw [List.nil_append, inner, held]
        rfl
      exact .edge top here broken
    · have down (path : List Nat) : headers (i :: path) = c.headerAt? path := by
        rw [inner, held]
        rfl
      cases broken with
      | node here broken => exact .node ((down _).trans here) broken
      | edge above here broken =>
        exact .edge ((down _).trans above) ((down _).trans here) broken

end

theorem Comment.findingsBroken (c : Comment) (parent : Header) (path : List Nat) (v : Violation) :
    (path, v) ∈ c.findings parent ↔
      path = [] ∧ c.header.BreaksAbove parent v ∨ Broken c.headerAt? path v := by
  induction path generalizing c parent with
  | nil =>
    rw [findings_eq, List.mem_append, brokenRoot (rfl : c.headerAt? [] = some c.header)]
    simp [inChildrenRoot, Header.edgeViolationsBreaks, Header.violationsBreaks]
  | cons i path ih =>
    have inner (i : Nat) (path : List Nat) :
        c.headerAt? (i :: path) = c.children[i]?.bind (·.headerAt? path) := Option.map_bind
    rw [findings_eq, List.mem_append, inChildrenAt,
      brokenChild (rfl : c.headerAt? [] = some c.header) inner]
    simp [ih]

namespace FullComment

def headerAt? (f : FullComment) : List Nat → Option Header
  | [] => some f.header
  | path => (f.at? path).map Comment.header

def findings (f : FullComment) : List Finding :=
  f.header.violations.map (([] : List Nat), ·) ++
    inChildren (f.blocks.map fun block => block.findings f.header)

theorem findingsReports (f : FullComment) : f.findings.map Prod.snd = f.violations := by
  unfold findings violations
  rw [List.map_append, inChildrenEntries, List.flatMap_map, List.map_map]
  simp [Comment.findingsReports, Function.comp_def]

theorem findingsDistinct (f : FullComment) : f.findings.Nodup := by
  unfold findings
  rw [List.nodup_append]
  refine ⟨?_, inChildrenDistinct ?_, ?_⟩
  · have own := (List.nodup_append.mp (Header.reportsDistinct f.header f.header)).2.1
    exact own.map fun v w same => (Prod.ext_iff.mp same).2
  · intro inner member
    obtain ⟨block, _, rfl⟩ := List.mem_map.mp member
    exact block.findingsDistinct f.header
  · rintro _ own _ deeper rfl
    obtain ⟨v, _, rfl⟩ := List.mem_map.mp own
    exact inChildrenRoot deeper

theorem findingsBroken (f : FullComment) (path : List Nat) (v : Violation) :
    (path, v) ∈ f.findings ↔ Broken f.headerAt? path v := by
  unfold findings
  rw [List.mem_append]
  cases path with
  | nil =>
    rw [brokenRoot (rfl : f.headerAt? [] = some f.header)]
    simp [inChildrenRoot, Header.violationsBreaks]
  | cons i path =>
    have inner (i : Nat) (path : List Nat) :
        f.headerAt? (i :: path) = f.blocks[i]?.bind (·.headerAt? path) := Option.map_bind
    rw [inChildrenAt, brokenChild (rfl : f.headerAt? [] = some f.header) inner]
    simp [Comment.findingsBroken]

structure Orderly (f : FullComment) : Prop where
  forward : ∀ path h, f.headerAt? path = some h → h.span.isValid → h.span.start ≤ h.span.stop
  located : ∀ path h, f.headerAt? path = some h → h.span.isValid → h.location.isValid →
    h.span.Within h.location
  allowed : ∀ path i parent child, f.headerAt? path = some parent →
    f.headerAt? (path ++ [i]) = some child → child.kind ∈ parent.kind.holds
  enclosed : ∀ path i parent child, f.headerAt? path = some parent →
    f.headerAt? (path ++ [i]) = some child → parent.span.isValid → child.span.isValid →
      parent.span.Within child.span.start ∧ parent.span.Within child.span.stop

theorem orderlyBroken (f : FullComment) : f.Orderly ↔ ∀ path v, ¬ Broken f.headerAt? path v := by
  constructor
  · intro orderly path v broken
    cases broken with
    | node here broken =>
      cases broken with
      | inverted valid backwards =>
        exact Nat.not_lt.mpr (orderly.forward _ _ here valid) backwards
      | location valid placed outside => exact outside (orderly.located _ _ here valid placed)
    | edge above here broken =>
      cases broken with
      | misplaced forbidden => exact forbidden (orderly.allowed _ _ _ _ above here)
      | outside valid placed outside =>
        exact outside (orderly.enclosed _ _ _ _ above here valid placed)
  · intro whole
    refine ⟨?_, ?_, ?_, ?_⟩
    · intro path h here valid
      exact Nat.not_lt.mp fun backwards => whole _ _ (.node here (.inverted valid backwards))
    · intro path h here valid placed
      exact Classical.not_not.mp fun outside =>
        whole _ _ (.node here (.location valid placed outside))
    · intro path i parent child above here
      exact Classical.not_not.mp fun forbidden =>
        whole _ _ (.edge above here (.misplaced forbidden))
    · intro path i parent child above here valid placed
      exact Classical.not_not.mp fun outside =>
        whole _ _ (.edge above here (.outside valid placed outside))

theorem quietOrderly (f : FullComment) : f.violations = [] ↔ f.Orderly := by
  rw [orderlyBroken, ← findingsReports, List.map_eq_nil_iff, List.eq_nil_iff_forall_not_mem]
  constructor
  · intro none path v broken
    exact none (path, v) ((f.findingsBroken path v).mpr broken)
  · rintro whole ⟨path, v⟩ member
    exact whole path v ((f.findingsBroken path v).mp member)

theorem violationsExact (f : FullComment) :
    (∃ found : List Finding, found.map Prod.snd = f.violations ∧ found.Nodup ∧
      ∀ path v, (path, v) ∈ found ↔ Broken f.headerAt? path v) ∧
    (f.violations = [] ↔ f.Orderly) :=
  ⟨⟨f.findings, f.findingsReports, f.findingsDistinct, f.findingsBroken⟩, f.quietOrderly⟩

end FullComment
end DocTree
