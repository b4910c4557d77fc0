import DocTree.Proofs.Attaching
import DocTree.Proofs.Rebinding

/-! What a pass over the blocks leaves alone. Only bindings of top-level blocks and the
remembered summary change, so the check and the walk come to the same, and a snapshot differs
at most in the entries that show a binding. A second pass changes nothing. -/
namespace DocTree

theorem mapBind {α β γ δ : Type} {x y : Run α} {u : α → γ} (same : y.map u = x.map u)
    {F G : α → Run β} {v : β → δ} (next : ∀ a b, u b = u a → (G b).map v = (F a).map v) :
    (y >>= G).map v = (x >>= F).map v := by
  cases x with
  | error fault =>
    cases y with
    | error other => cases same; rfl
    | ok b => cases same
  | ok a =>
    cases y with
    | error other => cases same
    | ok b => exact next a b (Except.ok.inj same)

section

variable {key value : String} {attributes : List (String × String)}

def Ascending (attributes : List (String × String)) : Prop :=
  attributes.Pairwise fun a b => a.1 < b.1

def putAll (attributes entries : List (String × String)) : List (String × String) :=
  entries.foldl (fun attributes (key, value) => putAttribute key value attributes) attributes

theorem putMember {e : String × String} (member : e ∈ putAttribute key value attributes) :
    e = (key, value) ∨ e ∈ attributes := by
  induction attributes with
  | nil => exact .inl (List.mem_singleton.mp member)
  | cons first rest ih =>
    unfold putAttribute at member
    split at member
    · rcases List.mem_cons.mp member with rfl | later
      · exact .inl rfl
      · exact .inr later
    · split at member
      · rcases List.mem_cons.mp member with rfl | later
        · exact .inl rfl
        · exact .inr (List.mem_cons_of_mem _ later)
      · rcases List.mem_cons.mp member with rfl | later
        · exact .inr List.mem_cons_self
        · exact (ih later).imp_right (List.mem_cons_of_mem _)

theorem putAllMember {e : String × String} {entries : List (String × String)}
    (member : e ∈ putAll attributes entries) : e ∈ attributes ∨ e ∈ entries := by
  induction entries generalizing attributes with
  | nil => exact .inl member
  | cons entry rest ih =>
    rcases ih member with put | later
    · rcases putMember put with own | before
      · exact .inr (List.mem_cons.mpr (.inl own))
      · exact .inl before
    · exact .inr (List.mem_cons_of_mem _ later)

theorem putAscending (ascending : Ascending attributes) :
    Ascending (putAttribute key value attributes) := by
  induction attributes with
  | nil => exact List.pairwise_singleton _ _
  | cons first rest ih =>
    obtain ⟨above, later⟩ := List.pairwise_cons.mp ascending
    unfold putAttribute
    split
    · rename_i less
      refine List.pairwise_cons.mpr ⟨fun e member => ?_, ascending⟩
      rcases List.mem_cons.mp member with rfl | later
      · exact less
      · exact String.lt_trans less (above e later)
    · split
      · rename_i same
        subst same
        exact List.pairwise_cons.mpr ⟨above, later⟩
      · rename_i notLess other
        refine List.pairwise_cons.mpr ⟨fun e member => ?_, ih later⟩
        rcases putMember member with rfl | later
        · exact Std.lt_of_le_of_ne notLess (Ne.symm other)
        · exact above e later

theorem putFirst (least : ∀ e ∈ attributes, key < e.1) :
    putAttribute key value attributes = (key, value) :: attributes := by
  cases attributes with
  | nil => rfl
  | cons first rest => exact if_pos (least first List.mem_cons_self)

theorem putSame (first : String × String) :
    putAttribute first.1 value (first :: attributes) = (first.1, value) :: attributes := by
  rw [putAttribute, if_neg (String.lt_irrefl _), if_pos rfl]

theorem putLater {first : String × String} (notLess : ¬ key < first.1) (other : key ≠ first.1) :
    putAttribute key value (first :: attributes) =
      first :: putAttribute key value attributes := by
  rw [putAttribute, if_neg notLess, if_neg other]

theorem putFilter (shown : String → Bool) (ascending : Ascending attributes) :
    (putAttribute key value attributes).filter (shown ·.1) =
      if shown key then putAttribute key value (attributes.filter (shown ·.1))
      else attributes.filter (shown ·.1) := by
  induction attributes with
  | nil => cases own : shown key <;> simp [putAttribute, own]
  | cons first rest ih =>
    obtain ⟨above, later⟩ := List.pairwise_cons.mp ascending
    by_cases less : key < first.1
    · have least (e) (member : e ∈ first :: rest) : key < e.1 := by
        rcases List.mem_cons.mp member with rfl | inside
        · exact less
        · exact String.lt_trans less (above e inside)
      rw [putFirst least, putFirst fun e member => least e (List.mem_filter.mp member).1,
        List.filter_cons]
    · by_cases same : key = first.1
      · subst same
        rw [putSame, List.filter_cons, List.filter_cons]
        cases own : shown first.1
        · simp
        · simp [putSame]
      · rw [putLater less same, List.filter_cons, List.filter_cons, ih later]
        cases own : shown key <;> cases front : shown first.1 <;> simp [putLater less same]

theorem putAllFilter (shown : String → Bool) (entries : List (String × String))
    (ascending : Ascending attributes) : (putAll attributes entries).filter (shown ·.1) =
      putAll (attributes.filter (shown ·.1)) (entries.filter (shown ·.1)) := by
  induction entries generalizing attributes with
  | nil => rfl
  | cons entry rest ih =>
    show (putAll (putAttribute entry.1 entry.2 attributes) rest).filter (shown ·.1) = _
    rw [ih (putAscending ascending), putFilter shown ascending, List.filter_cons]
    cases shown entry.1 <;> rfl

end

namespace Snapshot

theorem withAttributesAll (entries : List (String × String)) (s : Snapshot) :
    s.withAttributes entries =
      .node s.type s.label (putAll s.attributes entries) s.children := by
  induction entries generalizing s with
  | nil => cases s; rfl
  | cons entry rest ih =>
    show (s.withAttribute entry.1 entry.2).withAttributes rest = _
    rw [ih]
    cases s
    rfl

def showsBinding (key : String) : Bool := key == "index" || key == "position"

def withoutBinding : Snapshot → Snapshot
  | .node type label attributes children =>
    .node type label (attributes.filter fun entry => !showsBinding entry.1) children

def blocksWithoutBinding : Snapshot → Snapshot
  | .node type label attributes children =>
    .node type label attributes (children.map withoutBinding)

theorem withoutBindingChildren (s : Snapshot) (more : List Snapshot) :
    (s.withChildren more).withoutBinding = s.withoutBinding.withChildren more := by
  cases s
  rfl

end Snapshot

namespace Comment
open Snapshot

variable {c d : Comment}

theorem entriesAlike (type label : String) {entries others : List (String × String)}
    (same : entries.filter (fun entry => !showsBinding entry.1) =
      others.filter (fun entry => !showsBinding entry.1)) :
    ((leaf type label).withAttributes entries).withoutBinding =
      ((leaf type label).withAttributes others).withoutBinding := by
  rw [withAttributesAll, withAttributesAll]
  have kept (entries : List (String × String)) :
      (putAll [] entries).filter (fun entry => !showsBinding entry.1) =
        putAll [] (entries.filter fun entry => !showsBinding entry.1) :=
    putAllFilter (fun key => !showsBinding key) entries .nil
  have equal := (kept entries).trans ((congrArg (putAll []) same).trans (kept others).symm)
  exact congrArg (Snapshot.node type label · []) equal

theorem twinNode (t : CommandTable) (h : Twin c d) :
    (d.snapshotNode t).map withoutBinding = (c.snapshotNode t).map withoutBinding := by
  cases h with
  | same => rfl
  | @param old new base =>
    refine congrArg Except.ok (entriesAlike _ _ ?_)
    cases old <;> cases new <;> simp [Form.snapshotAttributes, showsBinding]
  | @tparam old new base =>
    refine congrArg Except.ok (entriesAlike _ _ ?_)
    cases old <;> cases new <;> simp [Form.snapshotAttributes, showsBinding]

theorem twinSnapshot (t : CommandTable) (h : Twin c d) :
    (d.snapshot t).map withoutBinding = (c.snapshot t).map withoutBinding := by
  rw [snapshot_eq, snapshot_eq, twinChildren h]
  refine mapBind (twinNode t h) fun own after same => ?_
  refine mapBind (u := id) rfl fun below others alike => ?_
  show Except.ok (after.withChildren others).withoutBinding =
    Except.ok (own.withChildren below).withoutBinding
  rw [withoutBindingChildren, withoutBindingChildren, same, show others = below from alike]

theorem twinsSnapshots (t : CommandTable) {cs ds : List Comment} (h : List.Forall₂ Twin cs ds) :
    (ds.mapM (snapshot t)).map (List.map withoutBinding) =
      (cs.mapM (snapshot t)).map (List.map withoutBinding) := by
  induction h with
  | nil => rfl
  | cons head tail ih =>
    rw [List.mapM_cons, List.mapM_cons]
    refine mapBind (twinSnapshot t head) fun s after same => mapBind ih fun rest others alike => ?_
    show Except.ok (after.withoutBinding :: others.map withoutBinding) =
      Except.ok (s.withoutBinding :: rest.map withoutBinding)
    rw [same, alike]

theorem twinEvents (depth : Nat) (h : Twin c d) : d.eventsAt depth = c.eventsAt depth := by
  rw [eventsAt_eq, eventsAt_eq, twinChildren h, kind, twinHeader h, ← kind]

theorem twinViolations (parent : Header) (h : Twin c d) :
    d.violationsUnder parent = c.violationsUnder parent := by
  rw [violationsUnder_eq, violationsUnder_eq, twinChildren h, twinHeader h]

theorem twinsFlatMap {α : Type} {F : Comment → List α} (each : ∀ {c d}, Twin c d → F d = F c)
    {cs ds : List Comment} (h : List.Forall₂ Twin cs ds) : ds.flatMap F = cs.flatMap F := by
  induction h with
  | nil => rfl
  | cons head tail ih => rw [List.flatMap_cons, List.flatMap_cons, each head, ih]

end Comment

namespace FullComment
open Comment Resolution

structure Framed (f g : FullComment) : Prop where
  header : g.header = f.header
  blocks : List.Forall₂ Twin f.blocks g.blocks
  info : g.info = f.info.askedBy (f.blocks.any asks)
  inside (i j : Nat) (path : List Nat) : g.at? (i :: j :: path) = f.at? (i :: j :: path)
  check : g.violations = f.violations
  walk : g.events = f.events
  outline (t : CommandTable) : (g.snapshot t).map Snapshot.blocksWithoutBinding =
    (f.snapshot t).map Snapshot.blocksWithoutBinding

theorem twinsAt {cs ds : List Comment} (h : List.Forall₂ Twin cs ds) (i j : Nat)
    (path : List Nat) :
    ds[i]?.bind (Comment.at? (j :: path)) = cs[i]?.bind (Comment.at? (j :: path)) := by
  induction h generalizing i with
  | nil => rfl
  | cons head tail ih =>
    cases i with
    | zero =>
      show Comment.at? (j :: path) _ = Comment.at? (j :: path) _
      unfold Comment.at?
      rw [twinChildren head]
    | succ i => exact ih i

theorem resolveFramed {f g : FullComment} {problems} (ok : f.resolve = .ok (problems, g)) :
    Framed f g := by
  obtain ⟨⟨header, twins, info⟩, _⟩ := resolveTwin rfl (twinsSame f.blocks) ok
  refine ⟨header, twins, info, twinsAt twins, ?_, ?_, fun t => ?_⟩
  · unfold violations
    rw [header, twinsFlatMap (twinViolations f.header) twins]
  · exact twinsFlatMap (twinEvents 0) twins
  · refine mapBind (twinsSnapshots t twins) fun below others same => ?_
    show Except.ok (Snapshot.node g.kind.name g.declName [] (others.map _)) =
      Except.ok (Snapshot.node f.kind.name f.declName [] (below.map _))
    rw [same, kind, header, declName, info, DeclInfo.askedDecl]
    rfl

theorem resolveTwice {f g : FullComment} {problems} (ok : f.resolve = .ok (problems, g)) :
    g.resolve = .ok (problems, g) := by
  obtain ⟨⟨header, twins, info⟩, _⟩ := resolveTwin rfl (twinsSame f.blocks) ok
  have summary : g.info.fill.1 = f.info.fill.1 := by rw [info, DeclInfo.askedFill]
  obtain ⟨_, reports, ends, _, _, again, leaves⟩ := resolveTwin summary twins ok
  rw [again, leavesSame leaves, info, DeclInfo.askedTwice, Bool.or_self, ← info]

theorem resolveFrame (f : FullComment) :
    (f.info.fill.1.params.length ≤ Form.sentinel →
      ∃ problems g, f.resolve = .ok (problems, g)) ∧
    ∀ problems g, f.resolve = .ok (problems, g) →
      Framed f g ∧ g.resolve = .ok (problems, g) :=
  ⟨resolveTotal f, fun _ _ ok => ⟨resolveFramed ok, resolveTwice ok⟩⟩

end FullComment
end DocTree
