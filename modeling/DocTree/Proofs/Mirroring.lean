import DocTree.Proofs.KindViews
import DocTree.Proofs.Walking

/-! Snapshots beside the trees they are taken of. A snapshot has a node for each node that a walk
enters, at the same path and of the same kind, with the label that belongs to the node, and one
more for the whole comment on top. -/
namespace DocTree

namespace Snapshot

def at? : List Nat → Snapshot → Option Snapshot
  | [], s => some s
  | i :: path, s => s.children[i]?.bind (at? path)

mutual

def nodesAt (depth : Nat) : Snapshot → List (Nat × Snapshot)
  | .node type label attributes children =>
    (depth, .node type label attributes children) :: nodesAll (depth + 1) children
termination_by structural s => s

def nodesAll (depth : Nat) : List Snapshot → List (Nat × Snapshot)
  | [] => []
  | s :: rest => nodesAt depth s ++ nodesAll depth rest
termination_by structural ss => ss

end

theorem inductChildren {P : Snapshot → Prop} (step : ∀ s, (∀ u ∈ s.children, P u) → P s)
    (s : Snapshot) : P s := by
  refine @Snapshot.rec P (fun ss => ∀ u ∈ ss, P u) (fun _ _ _ _ below => step _ below) (by simp)
    ?_ s
  intro first rest ih others
  rw [List.forall_mem_cons]
  exact ⟨ih, others⟩

theorem nodesAll_eq (depth : Nat) (ss : List Snapshot) :
    nodesAll depth ss = ss.flatMap (nodesAt depth) := by
  induction ss with
  | nil => rfl
  | cons s rest ih => rw [nodesAll, ih, List.flatMap_cons]

theorem nodesAt_eq (depth : Nat) (s : Snapshot) :
    s.nodesAt depth = (depth, s) :: s.children.flatMap (nodesAt (depth + 1)) := by
  cases s
  rw [nodesAt, nodesAll_eq]
  rfl

theorem nodePath {depth : Nat} {s : Snapshot} {e : Nat × Snapshot} (member : e ∈ s.nodesAt depth) :
    ∃ path, s.at? path = some e.2 := by
  induction s using inductChildren generalizing depth with
  | step s ih =>
    rw [nodesAt_eq, List.mem_cons, List.mem_flatMap] at member
    rcases member with rfl | ⟨u, child, inside⟩
    · exact ⟨[], rfl⟩
    · obtain ⟨path, found⟩ := ih u child inside
      obtain ⟨i, held⟩ := List.getElem?_of_mem child
      exact ⟨i :: path, Option.bind_eq_some_iff.mpr ⟨u, held, found⟩⟩

def typesAt (depth : Nat) (s : Snapshot) : List (String × Nat) :=
  (s.nodesAt depth).map fun entry => (entry.2.type, entry.1)

theorem typesAt_eq (depth : Nat) (s : Snapshot) :
    s.typesAt depth = (s.type, depth) :: s.children.flatMap (typesAt (depth + 1)) := by
  unfold typesAt
  rw [nodesAt_eq, List.map_cons, List.map_flatMap]

theorem withAttributesParts (entries : List (String × String)) (s : Snapshot) :
    (s.withAttributes entries).type = s.type ∧ (s.withAttributes entries).label = s.label ∧
      (s.withAttributes entries).children = s.children := by
  induction entries generalizing s with
  | nil => exact ⟨rfl, rfl, rfl⟩
  | cons entry rest ih =>
    obtain ⟨type, label, children⟩ := ih (s.withAttribute entry.1 entry.2)
    cases s
    exact ⟨type, label, children⟩

end Snapshot

namespace Comment

def label (t : CommandTable) : Comment → String
  | .text node => node.text
  | .inlineCommand node => (node.name? t).getD ("#" ++ toString node.id.toNat)
  | .startTag node => node.name
  | .endTag node => node.name
  | .paragraph _ => ""
  | .command _ base => (base.name? t).getD ("#" ++ toString base.id.toNat)
  | .verbatimBlockLine node => node.text

variable {t : CommandTable} {c : Comment} {s : Snapshot}

theorem snapshotNodeParts {own : Snapshot} (taken : c.snapshotNode t = .ok own) :
    own.type = c.kind.name ∧ own.label = c.label t ∧ own.children = [] := by
  cases c with
  | paragraph p =>
    obtain ⟨_, _, same⟩ := bindOk.mp taken
    cases same
    exact ⟨rfl, rfl, rfl⟩
  | inlineCommand node =>
    cases taken
    exact Snapshot.withAttributesParts _ _
  | startTag node =>
    cases taken
    exact Snapshot.withAttributesParts _ _
  | command form base =>
    cases taken
    exact Snapshot.withAttributesParts _ _
  | _ =>
    cases taken
    exact ⟨rfl, rfl, rfl⟩

theorem snapshotParts (taken : c.snapshot t = .ok s) :
    s.type = c.kind.name ∧ s.label = c.label t ∧
      List.Forall₂ (fun d u => d.snapshot t = .ok u) c.children s.children := by
  obtain ⟨own, inside, node, rfl, pairs⟩ := snapshotInside taken
  obtain ⟨type, label, none⟩ := snapshotNodeParts node
  obtain ⟨ownType, ownLabel, attributes, children⟩ := own
  cases none
  exact ⟨type, label, pairs⟩

def listing (entry : Kind × Nat) : String × Nat := (entry.1.name, entry.2 + 1)

theorem typesBelow {cs : List Comment} {ss : List Snapshot} {depth : Nat}
    (taken : List.Forall₂ (fun c s => c.snapshot t = .ok s) cs ss)
    (each : ∀ c ∈ cs, ∀ s, c.snapshot t = .ok s →
      s.typesAt (depth + 1) = (entered (c.eventsAt depth)).map listing) :
    ss.flatMap (Snapshot.typesAt (depth + 1)) =
      (entered (cs.flatMap (·.eventsAt depth))).map listing := by
  induction taken with
  | nil => rfl
  | cons head tail ih =>
    rw [List.forall_mem_cons] at each
    rw [List.flatMap_cons, List.flatMap_cons, each.1 _ head, ih each.2]
    simp [entered]

theorem typesEntered (taken : c.snapshot t = .ok s) (depth : Nat) :
    s.typesAt (depth + 1) = (entered (c.eventsAt depth)).map listing := by
  induction c using inductChildren generalizing s depth with
  | step c ih =>
    obtain ⟨type, _, children⟩ := snapshotParts taken
    have below := typesBelow children fun d member u inside => ih d member inside (depth + 1)
    rw [Snapshot.typesAt_eq, below, type, entered_eq]
    rfl

abbrev Pictured (t : CommandTable) : Option Comment → Option Snapshot → Prop :=
  Option.Rel fun c s => c.snapshot t = .ok s

theorem picturedBelow {cs : List Comment} {ss : List Snapshot}
    (taken : List.Forall₂ (fun c s => c.snapshot t = .ok s) cs ss) (i : Nat) {path : List Nat}
    (each : ∀ (c : Comment) (s : Snapshot), c.snapshot t = .ok s →
      Pictured t (c.at? path) (s.at? path)) :
    Pictured t (cs[i]?.bind (at? path)) (ss[i]?.bind (Snapshot.at? path)) := by
  induction taken generalizing i with
  | nil => exact .none
  | cons head tail ih =>
    cases i with
    | zero => exact each _ _ head
    | succ i => exact ih i

theorem snapshotAt (taken : c.snapshot t = .ok s) (path : List Nat) :
    Pictured t (c.at? path) (s.at? path) := by
  induction path generalizing c s with
  | nil => exact .some taken
  | cons i path ih => exact picturedBelow (snapshotParts taken).2.2 i fun _ _ => ih

theorem picturedParts {here : Option Comment} {there : Option Snapshot}
    (pictured : Pictured t here there) :
    there.map Snapshot.type = here.map (·.kind.name) ∧
      there.map Snapshot.label = here.map (label t) := by
  cases pictured with
  | none => exact ⟨rfl, rfl⟩
  | some taken =>
    obtain ⟨type, label, _⟩ := snapshotParts taken
    exact ⟨congrArg some type, congrArg some label⟩

end Comment

namespace Root
open Comment

def header? : Root → Option Header
  | .node _ => none
  | .tree f => some f.header

theorem useHeader {m : Mode} {t : CommandTable} (r : Root) (u : Use)
    (all : ∀ c ∈ r.blocks, Everywhere Cached c) : (r.use m t u).header? = r.header? := by
  cases r with
  | node c =>
    cases u with
    | inside i => cases i <;> rfl
    | _ => rfl
  | tree f =>
    cases u with
    | visit s => exact congrArg some (FullComment.stepBlocks t f s all).1
    | inside i => cases i <;> rfl
    | _ => rfl

theorem madeHeader {m : Mode} {r : Root} (made : Made m r) :
    ∀ h ∈ r.header?, h.kind = .fullComment := by
  induction made with
  | tree all built =>
    obtain ⟨_, _, same⟩ := bindOk.mp built
    cases same
    rintro _ ⟨⟩
    exact FullComment.ofBlocksKind _ _
  | use made t u ih =>
    rw [useHeader _ u (madeCached made)]
    exact ih
  | _ => nofun

end Root

namespace FullComment
open Comment

def listed (f : FullComment) : List (String × Nat) :=
  (f.kind.name, 0) :: (entered f.events).map fun (kind, depth) => (kind.name, depth + 1)

structure Mirrors (t : CommandTable) (f : FullComment) (s : Snapshot) : Prop where
  walk : s.typesAt 0 = f.listed
  top : s.label = f.declName
  types (i : Nat) (path : List Nat) :
    (s.at? (i :: path)).map Snapshot.type = (f.at? (i :: path)).map (·.kind.name)
  labels (i : Nat) (path : List Nat) :
    (s.at? (i :: path)).map Snapshot.label = (f.at? (i :: path)).map (Comment.label t)

variable {t : CommandTable} {f : FullComment} {s : Snapshot}

theorem picturedAt (taken : f.snapshot t = .ok s) (i : Nat) (path : List Nat) :
    Pictured t (f.at? (i :: path)) (s.at? (i :: path)) := by
  obtain ⟨_, each, same⟩ := bindOk.mp taken
  cases same
  exact picturedBelow (mapPairs each) i fun _ _ => (snapshotAt · path)

theorem snapshotMirrors (taken : f.snapshot t = .ok s) : Mirrors t f s := by
  have parts (i : Nat) (path : List Nat) := picturedParts (picturedAt taken i path)
  obtain ⟨children, each, same⟩ := bindOk.mp taken
  cases same
  refine ⟨?_, rfl, fun i path => (parts i path).1, fun i path => (parts i path).2⟩
  rw [Snapshot.typesAt_eq]
  exact congrArg _ (typesBelow (mapPairs each) fun c _ s inside => typesEntered inside 0)

theorem snapshotMade {m : Mode} (made : Made m (.tree f)) (t : CommandTable) :
    ∃ s, f.snapshot t = .ok s :=
  snapshotTotal t (madeCached made)

theorem snapshotsMirror (t : CommandTable) :
    (∀ m f, Made m (.tree f) → f.kind = .fullComment ∧ ∃ s, f.snapshot t = .ok s) ∧
    ∀ f s, f.snapshot t = .ok s → Mirrors t f s :=
  ⟨fun _ f made => ⟨Root.madeHeader made f.header rfl, snapshotMade made t⟩,
    fun _ _ => snapshotMirrors⟩

end FullComment
end DocTree
