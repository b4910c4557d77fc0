import DocTree.Tree.Full

/-! The rules a finished tree keeps: spans are not inverted and hold their location,
nodes hold children of the kinds they allow, and spans hold the spans of children.
Unset spans are left alone. -/
namespace DocTree

inductive Violation where
  | invertedSpan (kind : Kind) (span : Span)
  | locationOutsideSpan (kind : Kind) (location : Location) (span : Span)
  | misplacedChild (parent child : Kind)
  | childOutsideParent (parent : Kind) (parentSpan : Span) (child : Kind) (childSpan : Span)
  deriving DecidableEq, Repr

def Violation.message : Violation → String
  | .invertedSpan kind span => s!"{kind.name} range {span.display} ends before it begins"
  | .locationOutsideSpan kind location span =>
    s!"{kind.name} location {location.display} lies outside its range {span.display}"
  | .misplacedChild parent child => s!"{parent.name} must not contain {child.name}"
  | .childOutsideParent parent parentSpan child childSpan =>
    s!"{child.name} range {childSpan.display} is not enclosed by its parent {parent.name} " ++
      s!"range {parentSpan.display}"

def Kind.allows : Kind → Kind → Bool
  | .fullComment, child => child.isBlockContent
  | .paragraph, child => child.isInlineContent
  | .blockCommand, child | .paramCommand, child | .tparamCommand, child => child == .paragraph
  | .verbatimBlock, child => child == .verbatimBlockLine
  | _, _ => false

def Header.violations (h : Header) : List Violation :=
  (if h.span.isInverted then [.invertedSpan h.kind h.span] else []) ++
    (if h.span.isValid && h.location.isValid && !h.span.contains h.location then
      [.locationOutsideSpan h.kind h.location h.span]
    else [])

def Header.edgeViolations (parent child : Header) : List Violation :=
  (if parent.kind.allows child.kind then [] else [.misplacedChild parent.kind child.kind]) ++
    (if parent.span.isValid && child.span.isValid && !parent.span.encloses child.span then
      [.childOutsideParent parent.kind parent.span child.kind child.span]
    else [])

namespace Comment

def violationsUnder : Comment → Header → List Violation :=
  fold fun c below parent =>
    parent.edgeViolations c.header ++ c.header.violations ++
      below.flatMap fun violations => violations c.header

theorem violationsUnder_eq (c : Comment) (parent : Header) :
    c.violationsUnder parent = parent.edgeViolations c.header ++ c.header.violations ++
      c.children.flatMap fun d => d.violationsUnder c.header := by
  simp only [violationsUnder]
  rw [fold_eq]
  simp [List.flatMap_map]

end Comment

def FullComment.violations (f : FullComment) : List Violation :=
  f.header.violations ++ f.blocks.flatMap fun block => block.violationsUnder f.header

end DocTree
