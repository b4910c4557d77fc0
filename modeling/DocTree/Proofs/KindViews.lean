import DocTree.Proofs.Making
import DocTree.Proofs.Refusal

/-! The kind in a node's word and the readings of its content. Constructors make them agree, and
no step on a node changes either. But the kind stands in the base of a block command, and a base
can be put into another node, which then keeps its content and has the kind of the node that the
base was made for. The two agree in every node as long as bases stay with their kind. Wherever
bases go, a command stays a command. -/
namespace DocTree

theorem Kind.isACommand {a : Kind} (command : a.isBlockCommand = true) (category : Category) :
    a.isA category = Kind.blockCommand.isA category := by
  cases a <;> first | (cases category <;> rfl) | cases command

def Kind.Near (a b : Kind) : Prop := a = b ∨ a.isBlockCommand = true ∧ b.isBlockCommand = true

theorem Kind.nearIsA {a b : Kind} (near : a.Near b) (category : Category) :
    a.isA category = b.isA category := by
  rcases near with rfl | ⟨left, right⟩
  · rfl
  · rw [isACommand left, isACommand right]

theorem Kind.nearCommand {a b c : Kind} (left : b.isBlockCommand = true)
    (right : c.isBlockCommand = true) (near : a.Near b) : a.Near c := by
  rcases near with rfl | ⟨command, _⟩
  · exact .inr ⟨left, right⟩
  · exact .inr ⟨command, right⟩

theorem Form.isCommand (form : Form) : form.kind.isBlockCommand = true := by cases form <;> rfl

namespace Comment

structure Labelled (c : Comment) : Prop where
  kind : ∀ k, c.kind = k ↔ c.readsAs k = true
  category : ∀ category, c.kind.isA category = c.readsAsA category

theorem labelledIff {c : Comment} : Labelled c ↔ c.kind = c.contentKind := by
  constructor
  · intro labelled
    exact (labelled.kind c.contentKind).mpr (beq_self_eq_true c.contentKind)
  · intro same
    refine ⟨fun k => ?_, fun category => ?_⟩
    · rw [same]
      exact beq_iff_eq.symm
    · rw [same, readsAsA]

theorem movedLabel {form next : Form} {base : BlockCommand Comment}
    (labelled : Labelled (.command form base)) :
    Labelled (.command next base) ↔ form.kind = next.kind := by
  have own := labelledIff.mp labelled
  have kind : form.kind = (command next base).kind := own.symm
  rw [labelledIff, kind]
  rfl

theorem nearBare {c : Comment} (bare : c.base? = none) (near : c.kind.Near c.contentKind) :
    Labelled c := by
  rcases near with same | ⟨_, command⟩
  · exact labelledIff.mpr same
  · cases c with
    | command form base => cases bare
    | _ => cases command

structure Kinds (R : Kind → Kind → Prop) (c : Comment) : Prop where
  own : R c.kind c.contentKind
  lined : Lined c

variable {R : Kind → Kind → Prop}

theorem kindsTyped (same : ∀ k, R k k) {c : Comment} (typed : Typed c) : Kinds R c where
  own := typed.1.kind ▸ same _
  lined := typed.2

theorem kindsChange {P c d} (h : Change P c d) (lined : Lined d) (kinds : Kinds R c) :
    Kinds R d where
  own := by
    have kind : d.kind = c.kind := (changeHeader h).kind
    rw [changeContent h, kind]
    exact kinds.own
  lined := lined

theorem kindsStable : Stable (Kinds R) :=
  stableKept fun {c d} related kinds =>
    have change : Change (fun _ => True) c d := .read related
    kindsChange change (rereadOwn linedStable related kinds.lined) kinds

theorem attachLines {c d p : Comment} {answer} (h : c.attach p = (answer, d)) :
    d.lines = c.lines := by
  cases p with
  | paragraph p =>
    have h : c.changed (c.modifyBase? (·.setParagraph p)) = (answer, d) := h
    cases taken : c.modifyBase? (·.setParagraph p) with
    | none =>
      rw [taken] at h
      cases h
      rfl
    | some next =>
      rw [taken] at h
      cases h
      obtain ⟨form, base, rfl, rfl⟩ := modifyOk taken
      rfl
  | _ => cases h; rfl

end Comment

open Comment

def Use.Proper (u : Use) : Prop := ∀ step, u = .act step → step.Proper

/-- What can be made as in `Made` where a base is put into another node only if `moves` lets a
base that a node of the one kind has go to a node of the other. -/
inductive MadeWith (moves : Kind → Kind → Prop) (m : Mode) : Root → Prop where
  | seed {t c} {seed : Seed} (built : seed.build m t = .ok c) : MadeWith moves m (.node c)
  | paragraph {content p} (all : ∀ c ∈ content, MadeWith moves m (.node c))
      (built : Paragraph.build m content = .ok p) : MadeWith moves m (.node (.paragraph p))
  | attach {c p answer d} (command : MadeWith moves m (.node c))
      (paragraph : MadeWith moves m (.node p)) (attached : c.attach p = (answer, d)) :
      MadeWith moves m (.node d)
  | tree {blocks info f} (all : ∀ c ∈ blocks, MadeWith moves m (.node c))
      (built : FullComment.build m blocks info = .ok f) : MadeWith moves m (.tree f)
  | use {r} (made : MadeWith moves m r) (t : CommandTable) (u : Use) (proper : u.Proper) :
      MadeWith moves m (r.use m t u)
  | copy {r place c} (made : MadeWith moves m r) (here : r.part? place = some c) :
      MadeWith moves m (.node c)
  | ofBase {form base} (made : MadeWith moves m (.node (.command form base)))
      (moved : moves form.kind .blockCommand) : MadeWith moves m (.node (.ofBase base))
  | assign {c d form base} (made : MadeWith moves m (.node c))
      (other : MadeWith moves m (.node (.command form base)))
      (moved : moves form.kind c.contentKind)
      (assigned : c.modifyBase? (fun _ => base) = some d) : MadeWith moves m (.node d)

section
variable {R moves : Kind → Kind → Prop} {m : Mode}

theorem madeOf {r} (made : MadeWith moves m r) : Made m r := by
  induction made with
  | seed built => exact .seed built
  | paragraph _ built ih => exact .paragraph ih built
  | attach _ _ attached command paragraph => exact .attach command paragraph attached
  | tree _ built ih => exact .tree ih built
  | use _ t u _ ih => exact .use ih t u
  | copy _ here ih => exact .copy ih here
  | ofBase _ _ ih => exact .ofBase ih
  | assign _ _ _ assigned target other => exact .assign target other assigned

theorem usedKinds {t u c d} (proper : u.Proper) (used : Used t u c d)
    (all : Everywhere (Kinds R) c) : Everywhere (Kinds R) d := by
  have own := everywhereOwn all
  have lined : Lined d := by
    cases used with
    | read reread => exact rereadOwn linedStable reread own.lined
    | bound rebound =>
      cases rebound with
      | same => exact own.lined
      | form kind lines =>
        intro line member
        exact own.lined line (by rwa [Comment.lines, ← lines])
    | acted cached acting done => exact performLined (proper _ acting) done cached own.lined
  have change := usedChange used
  exact changeEverywhere kindsStable (changeImp (fun _ => False.elim) change)
    (kindsChange change lined own) all

theorem madeKinds (same : ∀ k, R k k)
    (follows : ∀ {a b c : Kind}, b.isBlockCommand = true → c.isBlockCommand = true → R a b →
      moves b c → R a c) {r} (made : MadeWith moves m r) :
    ∀ c ∈ r.blocks, Everywhere (Kinds R) c := by
  have alone {c} : Everywhere (Kinds R) c → ∀ d ∈ (Root.node c).blocks, Everywhere (Kinds R) d :=
    Root.eachNode.mpr
  induction made with
  | seed built => exact alone (everywhereImp (fun _ => kindsTyped same) (Seed.buildTyped built))
  | @paragraph content _ _ built ih =>
    obtain ⟨_, rfl⟩ := Paragraph.buildOk built
    refine alone (.paragraph (kindsTyped same (paragraphTyped content)) fun c member => ?_)
    rw [Paragraph.ofContentContent] at member
    exact Root.eachNode.mp (ih c member)
  | attach _ _ attached command paragraph =>
    rw [Root.eachNode] at command paragraph
    have change := attachChange paragraph attached
    have own := everywhereOwn command
    have lined : Lined _ := fun line member => own.lined line (attachLines attached ▸ member)
    exact alone (changeEverywhere kindsStable change (kindsChange change lined own) command)
  | tree _ built ih =>
    obtain ⟨_, _, same⟩ := bindOk.mp built
    cases same
    exact fun c member => Root.eachNode.mp (ih c member)
  | use made t u proper ih =>
    exact relatedAll (usedKinds proper) (Root.useEach _ u (madeCached (madeOf made))) ih
  | copy _ here ih => exact alone (Root.partEverywhere ih here)
  | @ofBase form base _ moved ih =>
    rw [Root.eachNode] at ih
    -- The node keeps the kind in the base, so it is that of the node the base is taken from.
    have own : R base.header.kind form.kind := (everywhereOwn ih).own
    have lined : Lined (.ofBase base) := by simp [Lined, Comment.lines, ofBase, Form.lines]
    exact alone (movedEverywhere ⟨follows form.isCommand rfl own moved, lined⟩ ih)
  | @assign c d form base _ _ moved assigned target other =>
    rw [Root.eachNode] at target other
    obtain ⟨old, _, rfl, rfl⟩ := modifyOk assigned
    have own : R base.header.kind form.kind := (everywhereOwn other).own
    have lined : Lined (.command old base) := (everywhereOwn target).lined
    exact alone (movedEverywhere ⟨follows form.isCommand old.isCommand own moved, lined⟩ other)

/-- A node that a base is put into is wrong exactly if the base comes from a node of another
kind. Wherever bases go, nodes without a base and the categories of all nodes are right. -/
theorem labelsHold (m : Mode) :
    (∀ c, MadeWith (· = ·) m (.node c) →
      Labelled c ∧ ∀ line ∈ c.lines, Labelled (.verbatimBlockLine line)) ∧
    (∀ c, MadeWith (fun _ _ => True) m (.node c) →
      (c.base? = none → Labelled c) ∧ (∀ category, c.kind.isA category = c.readsAsA category) ∧
        ∀ line ∈ c.lines, Labelled (.verbatimBlockLine line)) ∧
    (∀ form base, Labelled (.command form base) →
      (Labelled (.ofBase base) ↔ form.kind = .blockCommand)) ∧
    ∀ (c d : Comment) form base, Labelled (.command form base) →
      c.modifyBase? (fun _ => base) = some d → (Labelled d ↔ form.kind = c.contentKind) := by
  have lines {c : Comment} (lined : Lined c) :
      ∀ line ∈ c.lines, Labelled (.verbatimBlockLine line) :=
    fun line member => labelledIff.mpr (lined line member)
  refine ⟨fun c made => ?_, fun c made => ?_, fun form base labelled => ?_,
    fun c d form base labelled assigned => ?_⟩
  · have all := madeKinds (R := (· = ·)) (fun _ => rfl) (fun _ _ => Eq.trans) made
    have kinds := everywhereOwn (Root.eachNode.mp all)
    exact ⟨labelledIff.mpr kinds.own, lines kinds.lined⟩
  · have follows {a b c : Kind} (left : b.isBlockCommand = true) (right : c.isBlockCommand = true)
        (near : a.Near b) (_ : True) : a.Near c := Kind.nearCommand left right near
    have all := madeKinds (R := Kind.Near) (fun _ => .inl rfl) follows made
    have kinds := everywhereOwn (Root.eachNode.mp all)
    exact ⟨fun bare => nearBare bare kinds.own, Kind.nearIsA kinds.own, lines kinds.lined⟩
  · exact movedLabel labelled
  · obtain ⟨old, _, rfl, rfl⟩ := modifyOk assigned
    exact movedLabel labelled

end

theorem labelBorrowed :
    let free := fun _ _ : Kind => True
    let own :=
      (BlockCommand.ofKind .paramCommand (.valid 0) (.valid 6) 11).setDirection .input false
    let plain := BlockCommand.ofKind .blockCommand (.valid 0) (.valid 6) 6
    let lent := Comment.ofBase own
    let filled := Comment.command (.param none) plain
    MadeWith free .checked (.node lent) ∧ lent.kind = .paramCommand ∧
      lent.readsAs .paramCommand = false ∧ lent.readsAs .blockCommand = true ∧
      MadeWith free .checked (.node filled) ∧ filled.kind = .blockCommand ∧
      filled.readsAs .paramCommand = true ∧ filled.readsAs .blockCommand = false := by
  intro free own plain lent filled
  have ownBuilt : (Seed.param (.valid 0) (.valid 6) (.id 11)).build .checked .empty =
      .ok (.command (.param none) own) := rfl
  have plainBuilt : (Seed.block (.valid 0) (.valid 6) (.id 6)).build .checked .empty =
      .ok (.command .block plain) := rfl
  have lends : MadeWith free .checked (.node (.command (.param none) own)) := .seed ownBuilt
  have fills : MadeWith free .checked (.node (.command .block plain)) := .seed plainBuilt
  exact ⟨.ofBase lends trivial, by decide, rfl, rfl, .assign lends fills trivial rfl, by decide,
    rfl, rfl⟩

end DocTree
