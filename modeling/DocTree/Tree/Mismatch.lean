import DocTree.Kind
import DocTree.Span

/-! Why a tree is not the one expected: the cause, and for causes inside a block the
place, a path of child indices from the root. -/
namespace DocTree

namespace NodeMismatch

inductive Cause where
  | kind (expected found : Kind)
  | childCount (expected : Nat) (found : List Kind)
  | span
  | noChild (index count : Nat)
  | text
  | paragraphText
  | paragraphBlank
  | paragraphChildren
  | noName (command : String)
  | otherName (command : String)
  | direction
  | explicitDirection
  | unresolvedIndex (expected : Nat)
  | otherIndex
  | resolvedIndex (found : Nat)
  | unresolvedPosition (expected : List Nat)
  | otherPosition
  | resolvedPosition (found : List Nat)
  deriving DecidableEq, Repr

end NodeMismatch

structure NodeMismatch where
  place : List Nat
  cause : NodeMismatch.Cause
  deriving DecidableEq, Repr

inductive Mismatch where
  | blockCount (expected : Nat) (found : List Kind)
  | noBlock (index count : Nat)
  | span
  | validSpan (found : Span)
  | node (mismatch : NodeMismatch)
  deriving DecidableEq, Repr

def kindNames (kinds : List Kind) : String :=
  "[" ++ String.intercalate ", " (kinds.map Kind.name) ++ "]"

def pathText (path : List Nat) : String :=
  "[" ++ String.intercalate ", " (path.map fun i => s!"{i}") ++ "]"

def placeText : List Nat → String
  | [] => "blocks"
  | block :: rest => s!"blocks[{block}]" ++ String.join (rest.map fun i => s!".children[{i}]")

def NodeMismatch.Cause.message : NodeMismatch.Cause → String
  | .kind expected found => s!"Expected {expected.name}, found {found.name}"
  | .childCount expected found =>
    s!"Expected {expected} children, found {found.length}: " ++ kindNames found
  | .span => "span"
  | .noChild index count => s!"Child index {index} out of bounds ({count} children)"
  | .text => "text"
  | .paragraphText => "paragraph text"
  | .paragraphBlank => "paragraph whitespace"
  | .paragraphChildren => "paragraph children"
  | .noName command => s!"\\{command} has no name"
  | .otherName command => s!"{command} name"
  | .direction => "direction"
  | .explicitDirection => "explicit direction"
  | .unresolvedIndex expected => s!"Expected index {expected}, \\param is unresolved"
  | .otherIndex => "param index"
  | .resolvedIndex found => s!"Expected unresolved \\param, found index {found}"
  | .unresolvedPosition expected =>
    "Expected position " ++ pathText expected ++ ", \\tparam is unresolved"
  | .otherPosition => "position"
  | .resolvedPosition found => "Expected unresolved \\tparam, found " ++ pathText found

def Mismatch.message : Mismatch → String
  | .blockCount expected found =>
    s!"Expected {expected} blocks, found {found.length}: " ++ kindNames found
  | .noBlock index count => s!"Block index {index} out of bounds (comment has {count} blocks)"
  | .span => "FullComment span"
  | .validSpan found => s!"Expected unset FullComment span, found {found.display}"
  | .node mismatch => placeText mismatch.place ++ ": " ++ mismatch.cause.message

end DocTree
