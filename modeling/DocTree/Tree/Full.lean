import DocTree.Node.Display
import DocTree.Resolve
import DocTree.Walk

/-! A full comment: top-level blocks attached to a declaration. -/
namespace DocTree

structure FullComment where
  header : Header
  blocks : List Comment
  info : DeclInfo

namespace FullComment

def ofBlocks (blocks : List Comment) (info : DeclInfo) : FullComment :=
  ⟨.ofSpan .fullComment (.hull (blocks.map Comment.span)), blocks, info⟩

def build (m : Mode) (blocks : List Comment) (info : DeclInfo) : Run FullComment := do
  m.demand (blocks.all (·.kind.isBlockContent)) .commentContent
  return ofBlocks blocks info

def kind (f : FullComment) : Kind := f.header.kind
def location (f : FullComment) : Location := f.header.location
def span (f : FullComment) : Span := f.header.span

def declName (f : FullComment) : String := f.info.decl.name

def declInfo (f : FullComment) : Summary × FullComment :=
  let (summary, info) := f.info.fill
  (summary, { f with info })

def resolve (f : FullComment) : Run (List ResolveError × FullComment) := do
  let r ← resolveBlocks f.info f.blocks
  return (r.problems, { f with blocks := r.blocks, info := r.info })

def events (f : FullComment) : List Event := f.blocks.flatMap Comment.events

def paramNames (f : FullComment) : Run (List (Nat × String)) := do
  return (← f.blocks.mapM Comment.paramNames).flatten

def display (f : FullComment) : String :=
  s!"FullComment({f.blocks.length} block(s), decl '{f.declName}')"

def at? (path : List Nat) (f : FullComment) : Option Comment :=
  match path with
  | [] => none
  | i :: rest => f.blocks[i]?.bind (Comment.at? rest)

end FullComment
end DocTree
