import DocTree.Proofs.Building
import DocTree.Proofs.Paths

/-! What is attached to a node and what its children show of it. They show all of it, in
order, except that a verbatim block keeps a paragraph to itself: whoever goes through the
children meets its lines alone, although its span reaches to the end of the paragraph. -/
namespace DocTree

inductive Attachment where
  | paragraph (p : Paragraph Comment)
  | lines (lines : List VerbatimBlockLine)

structure Attached where
  content : List Comment := []
  paragraph : Option (Paragraph Comment) := none
  lines : List VerbatimBlockLine := []

namespace Attached

def nodes (a : Attached) : List Comment :=
  a.content ++ (a.paragraph.map Comment.paragraph).toList ++ a.lines.map Comment.verbatimBlockLine

def put (a : Attached) : Attachment → Attached
  | .paragraph p => { a with paragraph := some p }
  | .lines lines => { a with lines }

theorem putParagraph (given : List Attachment) (a : Attached) :
    (given.foldl put a).paragraph ≠ none ↔
      a.paragraph ≠ none ∨ ∃ p, Attachment.paragraph p ∈ given := by
  induction given generalizing a with
  | nil => simp
  | cons next rest ih =>
    rw [List.foldl_cons, ih]
    cases next with
    | paragraph p => simp [put]
    | lines lines => simp [put]

end Attached

namespace Comment

def attached : Comment → Attached
  | .paragraph p => { content := p.content }
  | .command form base => { paragraph := base.paragraph, lines := form.lines }
  | _ => {}

def offers (c : Comment) : Attachment → Bool
  | .paragraph _ => c.contentKind.isBlockCommand && c.contentKind != .verbatimLine
  | .lines _ => c.contentKind == .verbatimBlock

def take (c : Comment) : Attachment → Comment
  | .paragraph p => (c.attach (.paragraph p)).2
  | .lines lines => (c.changed (c.setLines? lines)).2

def unseen (c : Comment) : Option (Paragraph Comment) :=
  if c.contentKind = .verbatimBlock ∨ c.contentKind = .verbatimLine then c.attached.paragraph
  else none

def withoutParagraph : Comment → Comment
  | .command form base => .command form { base with paragraph := none }
  | c => c

theorem takeChange (c : Comment) (given : Attachment) : Change (fun _ => True) c (c.take given) := by
  cases given with
  | paragraph p => exact attachChange (d := .paragraph p) trivial rfl
  | lines lines => exact changedChange (fun _ => @linesChange _ lines _ _) rfl

theorem takeContent (c : Comment) (given : Attachment) :
    (c.take given).contentKind = c.contentKind := changeContent (takeChange c given)

theorem takeOffers (c : Comment) (given : Attachment) : (c.take given).offers = c.offers := by
  funext next
  cases next <;> simp only [offers, takeContent]

theorem takeAttached (c : Comment) (given : Attachment) :
    (c.take given).attached = if c.offers given then c.attached.put given else c.attached := by
  cases c with
  | command form base => cases form <;> cases given <;> rfl
  | _ => cases given <;> rfl

theorem takesContent (given : List Attachment) (c : Comment) :
    (given.foldl take c).contentKind = c.contentKind := by
  induction given generalizing c with
  | nil => rfl
  | cons next rest ih => rw [List.foldl_cons, ih, takeContent]

theorem takesAttached (given : List Attachment) (c : Comment) :
    (given.foldl take c).attached = (given.filter c.offers).foldl Attached.put c.attached := by
  induction given generalizing c with
  | nil => rfl
  | cons next rest ih =>
    rw [List.foldl_cons, ih, takeOffers, takeAttached, List.filter_cons]
    split <;> rfl

theorem takeReaches {c : Comment} {p : Paragraph Comment} (offered : c.offers (.paragraph p)) :
    p.header.span.stop ≤ (c.take (.paragraph p)).span.stop := by
  cases c with
  | command form base =>
    cases form with
    | verbatimLine => cases offered
    | _ => exact Span.extendRight _ _
  | _ => cases offered

theorem freshAttached {c} (fresh : Fresh c) : c.attached = {} := by
  cases fresh with
  | command form bare => simp [attached, bare, BlockCommand.ofKind]
  | _ => rfl

theorem takesUnseen {c : Comment} (bare : c.attached.paragraph = none)
    (given : List Attachment) : (given.foldl take c).unseen ≠ none ↔
      c.contentKind = .verbatimBlock ∧ ∃ p, Attachment.paragraph p ∈ given := by
  unfold unseen
  rw [takesContent, takesAttached]
  by_cases block : c.contentKind = .verbatimBlock
  · have all (next : Attachment) : c.offers next = true := by
      cases next <;> rw [offers, block] <;> rfl
    rw [if_pos (.inl block), List.filter_eq_self.mpr fun next _ => all next,
      Attached.putParagraph]
    simp [block, bare]
  · by_cases line : c.contentKind = .verbatimLine
    · have refuses (next : Attachment) : ¬ c.offers next = true := by
        cases next <;> rw [offers, line] <;> decide
      rw [if_pos (.inr line), List.filter_eq_nil_iff.mpr fun next _ => refuses next]
      simp [line, bare]
    · simp [block, line]

theorem childrenNodes (c : Comment) : c.children = c.attached.nodes ↔ c.unseen = none := by
  cases c with
  | command form base =>
    obtain ⟨h, args, _ | p⟩ := base <;> cases form <;>
      simp [children, attached, Attached.nodes, unseen, contentKind, Form.kind,
        Form.showsParagraph, Form.lines]
  | paragraph p => simp [children, attached, Attached.nodes, unseen, contentKind]
  | _ => simp [children, attached, Attached.nodes, unseen, contentKind]

structure Visits (c d : Comment) : Prop where
  walk (depth : Nat) : d.eventsAt (depth + 1) <:+: c.eventsAt depth
  check (parent : Header) : d.violationsUnder c.header <:+: c.violationsUnder parent
  outline (t : CommandTable) (s : Snapshot) :
    c.snapshot t = .ok s → ∃ inside ∈ s.children, d.snapshot t = .ok inside

theorem mapPairs {α β : Type} {f : α → Run β} {xs : List α} {ys : List β}
    (h : xs.mapM f = .ok ys) : List.Forall₂ (fun x y => f x = .ok y) xs ys := by
  induction xs generalizing ys with
  | nil =>
    cases h
    exact .nil
  | cons first rest ih =>
    rw [List.mapM_cons] at h
    obtain ⟨y, here, h⟩ := bindOk.mp h
    obtain ⟨others, there, same⟩ := bindOk.mp h
    cases same
    exact .cons here (ih there)

theorem pairMember {α β : Type} {R : α → β → Prop} {xs : List α} {ys : List β}
    (pairs : List.Forall₂ R xs ys) {x : α} (member : x ∈ xs) : ∃ y ∈ ys, R x y := by
  induction pairs with
  | nil => cases member
  | @cons _ y _ others here there ih =>
    cases member with
    | head => exact ⟨y, List.mem_cons_self, here⟩
    | tail _ later =>
      obtain ⟨z, found, related⟩ := ih later
      exact ⟨z, List.mem_cons_of_mem _ found, related⟩

theorem snapshotInside {t : CommandTable} {c : Comment} {s : Snapshot}
    (taken : c.snapshot t = .ok s) : ∃ own inside, c.snapshotNode t = .ok own ∧
      s = own.withChildren inside ∧
      List.Forall₂ (fun d u => d.snapshot t = .ok u) c.children inside := by
  rw [snapshot_eq] at taken
  obtain ⟨own, node, rest⟩ := bindOk.mp taken
  obtain ⟨inside, each, same⟩ := bindOk.mp rest
  cases same
  exact ⟨own, inside, node, rfl, mapPairs each⟩

theorem childVisited {c d : Comment} (member : d ∈ c.children) : Visits c d where
  walk depth := by
    rw [eventsAt_eq c]
    obtain ⟨before, after, same⟩ := flatMapInfix (f := fun d => d.eventsAt (depth + 1)) member
    exact ⟨.enter c.kind depth :: before, after ++ [.leave c.kind depth], by simp [← same]⟩
  check parent := by
    rw [violationsUnder_eq c]
    exact (flatMapInfix (f := fun d => d.violationsUnder c.header) member).trans
      (List.suffix_append _ _).isInfix
  outline t s taken := by
    obtain ⟨⟨type, label, attributes, children⟩, inside, _, rfl, pairs⟩ := snapshotInside taken
    obtain ⟨below, found, done⟩ := pairMember pairs member
    exact ⟨below, List.mem_append_right _ found, done⟩

structure Alike (c d : Comment) : Prop where
  children : c.children = d.children
  walk (depth : Nat) : c.eventsAt depth = d.eventsAt depth
  check (parent : Header) : c.violationsUnder parent = d.violationsUnder parent
  outline (t : CommandTable) : c.snapshot t = d.snapshot t

theorem unseenAlike {c : Comment} (hidden : c.unseen ≠ none) : Alike c c.withoutParagraph := by
  cases c with
  | command form base =>
    have same : (command form base).children = (command form base).withoutParagraph.children := by
      cases form <;> first | rfl | simp [unseen, contentKind, Form.kind] at hidden
    refine ⟨same, fun depth => ?_, fun parent => ?_, fun t => ?_⟩
    · rw [eventsAt_eq, eventsAt_eq, same]
      rfl
    · rw [violationsUnder_eq, violationsUnder_eq, same]
      rfl
    · rw [snapshot_eq, snapshot_eq, same]
      rfl
  | _ => simp [unseen, contentKind] at hidden

theorem childrenAttached (m : Mode) :
    (∀ c, Fresh c → c.attached = {}) ∧
    (∀ start stop id, (Comment.param start stop id).attached = {}) ∧
    (∀ content p, Paragraph.build m content = .ok p →
      (Comment.paragraph p).attached = { content }) ∧
    (∀ (given : List Attachment) (c : Comment),
      (given.foldl take c).attached = (given.filter c.offers).foldl Attached.put c.attached) ∧
    (∀ (c : Comment) (p : Paragraph Comment), c.offers (.paragraph p) →
      p.header.span.stop ≤ (c.take (.paragraph p)).span.stop) ∧
    (∀ c : Comment, c.attached.paragraph = none → ∀ given : List Attachment,
      (given.foldl take c).unseen ≠ none ↔
        c.contentKind = .verbatimBlock ∧ ∃ p, Attachment.paragraph p ∈ given) ∧
    (∀ c : Comment, c.children = c.attached.nodes ↔ c.unseen = none) ∧
    (∀ c : Comment, c.unseen = none → ∀ d ∈ c.attached.nodes, Visits c d) ∧
    ∀ c : Comment, c.unseen ≠ none → Alike c c.withoutParagraph := by
  refine ⟨fun _ => freshAttached, fun _ _ _ => rfl, ?_, takesAttached,
    fun _ _ => takeReaches, fun _ => takesUnseen, childrenNodes, ?_, fun _ => unseenAlike⟩
  · intro content p built
    obtain ⟨_, rfl⟩ := Paragraph.buildOk built
    show ({ content := (Paragraph.ofContent content).content } : Attached) = { content }
    rw [Paragraph.ofContentContent]
  · intro c seen d member
    rw [← (childrenNodes c).mpr seen] at member
    exact childVisited member

theorem paragraphUnseen :
    let p := Paragraph.ofContent [.text (.make (.valid 11) (.valid 13) "hi")]
    let d := (verbatimBlock (.valid 4) (.valid 10) 35).take (.paragraph p)
    d.base?.bind BlockCommand.paragraph = some p ∧ d.span = ⟨.valid 4, .valid 13⟩ ∧
      d.attached.nodes.length = 1 ∧ d.children.length = 0 ∧
      d.events = [.enter .verbatimBlock 0, .leave .verbatimBlock 0] := by
  refine ⟨rfl, by decide, rfl, rfl, by decide⟩

end Comment
end DocTree
