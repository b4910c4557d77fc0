import DocTree.Proofs.SourceOrder
import DocTree.Proofs.Violations

/-! Which nodes hold which. The check of a tree reports a misplaced child exactly if some node
holds one that its kind does not allow. What is allowed stands lower at each step, so a tree
without misplaced children has at most three levels of nodes. -/
namespace DocTree

def Kind.height : Kind → Nat
  | .text | .inlineCommand | .startTag | .endTag | .verbatimLine | .verbatimBlockLine => 0
  | .paragraph | .verbatimBlock => 1
  | .blockCommand | .paramCommand | .tparamCommand => 2
  | .fullComment => 3

theorem Kind.allowsLower (parent child : Kind) :
    parent.allows child = true → child.height < parent.height := by
  cases parent <;> cases child <;> decide

def Event.depth : Event → Nat
  | .enter _ depth | .leave _ depth => depth

namespace Header

theorem ownPlaced {h : Header} {parent child : Kind} :
    .misplacedChild parent child ∉ h.violations := by
  intro member
  cases violationsBreaks.mp member

theorem edgeMisplaced {h k : Header} :
    (∃ parent child, .misplacedChild parent child ∈ h.edgeViolations k) ↔
      h.kind.allows k.kind = false := by
  constructor
  · rintro ⟨parent, child, member⟩
    cases edgeViolationsBreaks.mp member with
    | misplaced forbidden => rwa [← Bool.not_eq_true, Kind.allowsHolds]
  · intro forbidden
    rw [← Bool.not_eq_true, Kind.allowsHolds] at forbidden
    exact ⟨_, _, edgeViolationsBreaks.mpr (.misplaced forbidden)⟩

end Header

namespace Comment

def Allowing (c : Comment) : Prop := ∀ d ∈ c.children, c.kind.allows d.kind = true

theorem notAllowing {c : Comment} : ¬ Below Allowing c ↔
    ∃ d ∈ c.children, c.kind.allows d.kind = false ∨ ¬ Below Allowing d := by
  constructor
  · intro outside
    by_contra none
    have each (d) (member : d ∈ c.children) : c.kind.allows d.kind = true ∧ Below Allowing d := by
      by_contra bad
      rw [not_and_or, Bool.not_eq_true] at bad
      exact none ⟨d, member, bad⟩
    exact outside (.node (fun d member => (each d member).1) fun d member => (each d member).2)
  · rintro ⟨d, member, forbidden | deeper⟩ whole
    · rw [belowOwn whole d member] at forbidden
      cases forbidden
    · exact deeper (belowChild whole d member)

theorem misplacedUnder (c : Comment) (h : Header) :
    (∃ parent child, .misplacedChild parent child ∈ c.violationsUnder h) ↔
      h.kind.allows c.kind = false ∨ ¬ Below Allowing c := by
  induction c using inductChildren generalizing h with
  | step c ih =>
    rw [violationsUnder_eq, notAllowing]
    constructor
    · rintro ⟨parent, child, member⟩
      rcases List.mem_append.mp member with own | below
      · rcases List.mem_append.mp own with edge | node
        · exact .inl (Header.edgeMisplaced.mp ⟨parent, child, edge⟩)
        · exact absurd node Header.ownPlaced
      · obtain ⟨d, held, inside⟩ := List.mem_flatMap.mp below
        exact .inr ⟨d, held, (ih d held c.header).mp ⟨parent, child, inside⟩⟩
    · rintro (forbidden | ⟨d, held, deeper⟩)
      · obtain ⟨parent, child, edge⟩ := Header.edgeMisplaced.mpr forbidden
        exact ⟨parent, child, List.mem_append_left _ (List.mem_append_left _ edge)⟩
      · obtain ⟨parent, child, inside⟩ := (ih d held c.header).mpr deeper
        exact ⟨parent, child, List.mem_append_right _ (List.mem_flatMap_of_mem held inside)⟩

theorem eventsDepth {c : Comment} (allowed : Below Allowing c) (depth : Nat) :
    ∀ e ∈ c.eventsAt depth, e.depth ≤ depth + c.kind.height := by
  induction c using inductChildren generalizing depth with
  | step c ih =>
    rw [eventsAt_eq]
    intro e member
    rcases List.mem_append.mp member with inside | last
    · rcases List.mem_cons.mp inside with rfl | below
      · exact Nat.le_add_right _ _
      · obtain ⟨d, child, event⟩ := List.mem_flatMap.mp below
        have lower := Kind.allowsLower _ _ (belowOwn allowed d child)
        -- The child stands one level further down and has at least one level less below it.
        have deep := ih d child (belowChild allowed d child) (depth + 1) e event
        omega
    · cases List.mem_singleton.mp last
      exact Nat.le_add_right _ _

theorem commandChild {form : Form} {base : BlockCommand Comment} {d : Comment}
    (member : d ∈ (command form base).children) :
    (form.showsParagraph = true ∧ ∃ p, base.paragraph = some p ∧ d = .paragraph p) ∨
      form.showsParagraph = false ∧ ∃ line ∈ form.lines, d = .verbatimBlockLine line := by
  simp only [children] at member
  cases shows : form.showsParagraph with
  | true =>
    rw [shows, if_pos rfl] at member
    obtain ⟨p, held, rfl⟩ := Option.map_eq_some_iff.mp (Option.mem_toList.mp member)
    exact .inl ⟨rfl, p, held, rfl⟩
  | false =>
    rw [shows, if_neg (by decide)] at member
    obtain ⟨line, listed, rfl⟩ := List.mem_map.mp member
    exact .inr ⟨rfl, line, listed, rfl⟩

def Kinded (c : Comment) : Prop := c.kind = c.contentKind

theorem fitsAllowing {c : Comment} (own : Kinded c) (below : ∀ d ∈ c.children, Kinded d) :
    fits c = true ↔ Allowing c := by
  unfold Kinded at own
  unfold Allowing
  rw [own]
  cases c with
  | paragraph p => exact List.all_eq_true
  | command form base =>
    refine iff_of_true rfl fun d member => ?_
    rw [below d member]
    rcases commandChild member with ⟨shows, p, _, rfl⟩ | ⟨_, line, listed, rfl⟩
    · cases form <;> first | rfl | cases shows
    · cases form <;> first | rfl | cases listed
  | _ => exact iff_of_true rfl (by simp [children])

theorem belowAllowing {c : Comment} (kinded : Below Kinded c) :
    Below (fits · = true) c ↔ Below Allowing c := by
  induction c using inductChildren with
  | step c ih =>
    have inner := belowChild kinded
    have own := fitsAllowing (belowOwn kinded) fun d member => belowOwn (inner d member)
    constructor
    · intro fit
      exact .node (own.mp (belowOwn fit)) fun d member =>
        (ih d member (inner d member)).mp (belowChild fit d member)
    · intro allowed
      exact .node (own.mpr (belowOwn allowed)) fun d member =>
        (ih d member (inner d member)).mpr (belowChild allowed d member)

end Comment

namespace FullComment
open Comment

variable {f : FullComment}

def Nested (f : FullComment) : Prop :=
  ∀ c ∈ f.blocks, f.kind.allows c.kind = true ∧ Below Allowing c

theorem misplacedReported (f : FullComment) :
    (∃ parent child, .misplacedChild parent child ∈ f.violations) ↔ ¬ f.Nested := by
  unfold violations Nested
  constructor
  · rintro ⟨parent, child, member⟩ nested
    rcases List.mem_append.mp member with own | below
    · exact Header.ownPlaced own
    · obtain ⟨c, listed, inside⟩ := List.mem_flatMap.mp below
      obtain ⟨allowed, deeper⟩ := nested c listed
      rcases (misplacedUnder c f.header).mp ⟨parent, child, inside⟩ with forbidden | bad
      · exact absurd (allowed.symm.trans forbidden) (by decide)
      · exact bad deeper
  · intro outside
    by_contra none
    refine outside fun c listed => ?_
    by_contra bad
    rw [not_and_or, Bool.not_eq_true] at bad
    obtain ⟨parent, child, inside⟩ := (misplacedUnder c f.header).mpr bad
    exact none ⟨parent, child, List.mem_append_right _ (List.mem_flatMap_of_mem listed inside)⟩

theorem nestedDepth (kind : f.kind = .fullComment) (nested : f.Nested) :
    ∀ e ∈ f.events, e.depth ≤ 2 := by
  intro e member
  obtain ⟨c, listed, event⟩ := List.mem_flatMap.mp member
  obtain ⟨allowed, below⟩ := nested c listed
  have lower := Kind.allowsLower _ _ allowed
  have deep := eventsDepth below 0 e event
  have top : f.kind.height = 3 := by rw [kind]; rfl
  omega

end FullComment
end DocTree
