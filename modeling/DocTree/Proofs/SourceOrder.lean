import DocTree.Proofs.Building

/-! Trees in source order break none of the rules of a finished tree. Building leaves each node
in a shape of its own: where its location stands, and how far its span reaches over what it
holds. With the order of the source on top of that, spans nest. Reading and resolving change
nothing the rules look at. -/
namespace DocTree
open Comment (Everywhere Cached Reread)

/-- Two kinds that the rules do not tell apart. -/
structure Kind.Alike (a b : Kind) : Prop where
  parent : ∀ k, a.allows k = b.allows k
  child : ∀ k : Kind, k.allows a = k.allows b

theorem Kind.alikeSame {a b : Kind} (same : a = b) : a.Alike b :=
  ⟨fun k => by rw [same], fun k => by rw [same]⟩

theorem Kind.alikeTrans {a b c : Kind} (first : a.Alike b) (second : b.Alike c) : a.Alike c :=
  ⟨fun k => (first.parent k).trans (second.parent k),
    fun k => (first.child k).trans (second.child k)⟩

theorem Kind.alikeSymm {a b : Kind} (alike : a.Alike b) : b.Alike a :=
  ⟨fun k => (alike.parent k).symm, fun k => (alike.child k).symm⟩

theorem Form.alikeBlock {form : Form} (shows : form.showsParagraph = true) :
    form.kind.Alike .blockCommand := by
  cases form with
  | verbatimBlock | verbatimLine => cases shows
  | _ => exact ⟨fun _ => rfl, fun k => by cases k <;> rfl⟩

namespace Header

structure Agrees (h k : Header) : Prop where
  kind : k.kind = h.kind
  location : k.location = h.location
  span : k.span = h.span

theorem agreesOwn {h k : Header} (agrees : h.Agrees k) : k.violations = h.violations := by
  simp only [violations, agrees.kind, agrees.location, agrees.span]

theorem agreesEdge {h k child next : Header} (parent : h.Agrees k) (agrees : child.Agrees next) :
    k.edgeViolations next = h.edgeViolations child := by
  simp only [edgeViolations, parent.kind, parent.span, agrees.kind, agrees.span]

theorem agreesSame (h : Header) : h.Agrees h := ⟨rfl, rfl, rfl⟩

end Header

namespace Comment
open Header

theorem rereadAgrees {c d} (h : Reread c d) : c.header.Agrees d.header := by
  induction h with
  | trans first second left right =>
    exact ⟨right.kind.trans left.kind, right.location.trans left.location,
      right.span.trans left.span⟩
  | text n => exact ⟨Word.filledKind textCacheSound _ _, rfl, rfl⟩
  | paragraph p => exact ⟨Word.filledKind paragraphCacheSound _ _, rfl, rfl⟩
  | _ => exact agreesSame _

def SameRules (c d : Comment) : Prop :=
  ∀ h k : Header, h.Agrees k → d.violationsUnder k = c.violationsUnder h

theorem sameRules {c d : Comment} (header : c.header.Agrees d.header)
    (children : List.Forall₂ SameRules c.children d.children) : SameRules c d := by
  intro h k agrees
  rw [violationsUnder_eq, violationsUnder_eq, agreesEdge agrees header, agreesOwn header]
  congr 1
  generalize c.children = cs, d.children = ds at children
  induction children with
  | nil => rfl
  | cons first rest ih =>
    rw [List.flatMap_cons, List.flatMap_cons, ih, first _ _ header]

theorem ownRules (c : Comment) : SameRules c c := by
  induction c using inductChildren with
  | step c ih => exact sameRules (agreesSame _) (List.forall₂_same.mpr ih)

theorem rereadRules {c d} (h : Reread c d) : SameRules c d := by
  induction h with
  | same c => exact ownRules c
  | trans first second left right =>
    intro h k agrees
    rw [right k k (agreesSame k), left h k agrees]
  | text n => exact sameRules (rereadAgrees (.text n)) .nil
  | paragraph p =>
    exact sameRules (rereadAgrees (.paragraph p)) (List.forall₂_same.mpr fun c _ => ownRules c)
  | @content h before c d after inside ih =>
    refine sameRules (agreesSame _) (List.rel_append ?_ (.cons ih ?_))
    · exact List.forall₂_same.mpr fun c _ => ownRules c
    · exact List.forall₂_same.mpr fun c _ => ownRules c
  | @command form h args p q inside ih =>
    refine sameRules (agreesSame _) ?_
    simp only [children]
    cases form.showsParagraph with
    | true => exact .cons ih .nil
    | false => exact List.forall₂_same.mpr fun c _ => ownRules c

theorem reboundRules {c d} (h : Rebound c d) : SameRules c d := by
  cases h with
  | same c => exact ownRules c
  | @form form next base kind lines =>
    have shows : next.showsParagraph = form.showsParagraph := by
      cases form <;> cases next <;> cases kind <;> rfl
    refine sameRules (agreesSame _) ?_
    simp only [children, shows, lines]
    exact List.forall₂_same.mpr fun c _ => ownRules c

end Comment

namespace FullComment
open Comment

theorem stepViolations (t : CommandTable) (f : FullComment) (s : Step)
    (all : ∀ c ∈ f.blocks, Everywhere Cached c) : (f.step t s).2.violations = f.violations := by
  obtain ⟨header, blocks⟩ := stepBlocks t f s all
  have rules : List.Forall₂ SameRules f.blocks (f.step t s).2.blocks := by
    rcases blocks with read | bound
    · exact read.imp fun _ _ => rereadRules
    · exact bound.imp fun _ _ => reboundRules
  unfold violations
  rw [header]
  congr 1
  generalize f.blocks = cs, (f.step t s).2.blocks = ds at rules
  induction rules with
  | nil => rfl
  | cons first rest ih =>
    rw [List.flatMap_cons, List.flatMap_cons, ih, first _ _ (Header.agreesSame _)]

theorem runViolations {m P} (upheld : Upheld m P) (t : CommandTable) (f : FullComment)
    (steps : List Step) (all : ∀ c ∈ f.blocks, Everywhere P c) :
    ∀ result ∈ f.run t steps, result.2.violations = f.violations := by
  induction steps generalizing f with
  | nil => simp [run]
  | cons s rest ih =>
    have first := stepViolations t f s fun c member => upheldCached upheld (all c member)
    intro result member
    rcases List.mem_cons.mp member with rfl | later
    · exact first
    · exact (ih _ (upheldBlocks upheld t f s all) result later).trans first

end FullComment
namespace Comment
open Header

def fits : Comment → Bool
  | .paragraph p => p.content.all (·.kind.isInlineContent)
  | _ => true

/-- What building leaves of a node apart from its attributes. -/
def Built (m : Mode) : Comment → Prop
  | .text n => n.header.location = n.header.span.start
  | .inlineCommand n => n.header.location = n.header.span.start
  | .startTag tag =>
    tag.header.location = tag.header.span.start.shift 1 ∧
      tag.header.span.start.pastText 1 tag.name ≤ tag.header.span.stop
  | .endTag tag => tag.header.location = tag.header.span.start.shift 2
  | .paragraph p =>
    p.header.location = p.header.span.start ∧
      p.header.span = .hull (p.content.map Comment.span) ∧
      (m = .checked → fits (.paragraph p) = true)
  | .command form base =>
    base.header.location = base.header.span.start.shift 1 ∧
      (∀ p, base.paragraph = some p → p.header.span.stop ≤ base.header.span.stop) ∧
      ∀ last, form.lines.getLast? = some last → last.header.span.stop ≤ base.header.span.stop
  | .verbatimBlockLine _ => True

structure Shaped (m : Mode) (c : Comment) : Prop where
  cached : Cached c
  kind : c.kind.Alike c.contentKind
  built : Built m c

theorem builtStable (m : Mode) : Stable (Built m) where
  text _ own := own
  paragraph _ own := own
  content h before c d after related own := by
    have agrees := rereadAgrees related
    have span : d.span = c.span := agrees.span
    have kind : d.kind = c.kind := agrees.kind
    simpa only [Built, fits, List.map_append, List.map_cons, List.all_append, List.all_cons, span,
      kind] using own
  command form h args p q related own := by
    obtain ⟨location, paragraph, lines⟩ := own
    refine ⟨location, ?_, lines⟩
    rintro _ ⟨⟩
    have span : q.header.span = p.header.span := (rereadAgrees related).span
    rw [span]
    exact paragraph p rfl

theorem builtFresh {m c} (h : Fresh c) : Built m c := by
  cases h with
  | text => exact rfl
  | inlineCommand => exact rfl
  | startTag => exact ⟨rfl, Nat.le_refl _⟩
  | endTag => exact rfl
  | command form bare =>
    refine ⟨rfl, nofun, ?_⟩
    rw [bare]
    nofun
  | verbatimBlockLine => exact trivial

theorem builtParagraph {m : Mode} {content : List Comment}
    (inline : m = .checked → content.all (·.kind.isInlineContent)) :
    Built m (.paragraph (.ofContent content)) := by
  cases content with
  | nil => exact ⟨rfl, rfl, fun _ => rfl⟩
  | cons c rest => exact ⟨rfl, rfl, inline⟩

theorem builtChange {m P c d} (h : Change P c d) (own : Built m c) : Built m d := by
  cases h with
  | read reread => exact rereadOwn (builtStable m) reread own
  | text n => exact own
  | inlineCommand grows => exact grows.location.trans (own.trans grows.start.symm)
  | startTag grows name =>
    obtain ⟨location, stop⟩ := own
    refine ⟨?_, ?_⟩
    · rw [grows.location, grows.start, location]
    · rw [grows.start, name]
      exact Nat.le_trans stop grows.stop
  | endTag grows =>
    have location : _ = _ := own
    show _ = _
    rw [grows.location, grows.start, location]
  | command kind grows lines =>
    obtain ⟨location, paragraph, last⟩ := own
    refine ⟨?_, fun p held => Nat.le_trans (paragraph p held) grows.stop, ?_⟩
    · show _ = _
      rw [grows.location, grows.start, location]
    · rcases lines with same | reach
      · rw [same]
        exact fun line held => Nat.le_trans (last line held) grows.stop
      · exact reach
  | attach attached =>
    obtain ⟨location, paragraph, last⟩ := own
    refine ⟨?_, ?_, fun line held => Nat.le_trans (last line held) (Span.extendLeft _ _)⟩
    · rw [BlockCommand.setParagraph, Header.extend, Span.extendStart]
      exact location
    · rintro _ ⟨⟩
      exact Span.extendRight _ _

theorem soundShaped {m c} (sound : Sound c) (built : Built m c) : Shaped m c :=
  ⟨sound.cached, Kind.alikeSame sound.kind, built⟩

theorem changeShaped {m P c d} (h : Change P c d) (cached : Cached d) (own : Shaped m c) :
    Shaped m d := by
  refine ⟨cached, ?_, builtChange h own.built⟩
  rw [changeContent h, show d.kind = c.kind from (changeHeader h).kind]
  exact own.kind

theorem shapedUpheld (m : Mode) : Upheld m (Shaped m) where
  stable := stableKept fun {c d} related own =>
    have change : Change (fun _ => True) c d := .read related
    changeShaped change (rereadOwn cachedStable related own.cached) own
  cached := Shaped.cached
  fresh h := soundShaped ((soundUpheld m).fresh h) (builtFresh h)
  paragraph inline := soundShaped ((soundUpheld m).paragraph inline) (builtParagraph inline)
  change h own := changeShaped h ((cachedUpheld m).change h own.cached) own

theorem shapedMoved {m form next base} (left : form.showsParagraph = true)
    (right : next.showsParagraph = true) (own : Shaped m (.command form base)) :
    Shaped m (.command next base) := by
  obtain ⟨location, reach, _⟩ := own.built
  have bare : next.lines = [] := by cases next <;> first | rfl | cases right
  have alike := Kind.alikeTrans (Form.alikeBlock left) (Kind.alikeSymm (Form.alikeBlock right))
  refine ⟨trivial, Kind.alikeTrans own.kind alike, location, reach, ?_⟩
  rw [bare]
  nofun

inductive Below (P : Comment → Prop) : Comment → Prop where
  | node {c} (own : P c) (below : ∀ d ∈ c.children, Below P d) : Below P c

theorem belowOwn {P c} (h : Below P c) : P c := by
  cases h
  assumption

theorem belowChild {P c} (h : Below P c) : ∀ d ∈ c.children, Below P d := by
  cases h
  assumption

theorem belowFold {P : Comment → Prop} [DecidablePred P] (c : Comment) :
    fold (fun c below => decide (P c) && below.all id) c = true ↔ Below P c := by
  induction c using inductChildren with
  | step c ih =>
    rw [fold_eq, Bool.and_eq_true, decide_eq_true_iff, List.all_map, List.all_eq_true]
    constructor
    · rintro ⟨own, below⟩
      exact .node own fun d member => (ih d member).mp (below d member)
    · intro h
      exact ⟨belowOwn h, fun d member => (ih d member).mpr (belowChild h d member)⟩

instance {P : Comment → Prop} [DecidablePred P] : DecidablePred (Below P) :=
  fun c => decidable_of_iff _ (belowFold c)

def Ordered : Comment → Prop
  | .text n => n.header.span.IsRange
  | .inlineCommand n => n.header.span.IsRange
  | .startTag tag => tag.header.span.IsRange ∧ tag.name.utf8ByteSize < 2147483647
  | .endTag tag =>
    tag.header.span.IsRange ∧ tag.header.span.start.shift 2 ≤ tag.header.span.stop
  | .paragraph p => (p.content.map Comment.span).IsChain Span.Follows
  | .command form base =>
    (form.showsParagraph = true → ∀ p ∈ base.paragraph, p.content.isEmpty = false →
      base.header.span.start ≤ p.header.span.start) ∧
    (∀ line ∈ form.lines.head?, base.header.span.start ≤ line.header.span.start) ∧
    (form.lines.map (·.header.span)).IsChain Span.Follows
  | .verbatimBlockLine line =>
    line = .make line.header.span.start line.text ∧ line.header.span.IsRange ∧
      line.text.utf8ByteSize < 2147483647

instance : DecidablePred Ordered
  | .text n => inferInstanceAs (Decidable n.header.span.IsRange)
  | .inlineCommand n => inferInstanceAs (Decidable n.header.span.IsRange)
  | .startTag tag =>
    inferInstanceAs (Decidable (tag.header.span.IsRange ∧ tag.name.utf8ByteSize < 2147483647))
  | .endTag tag =>
    inferInstanceAs (Decidable (tag.header.span.IsRange ∧
      tag.header.span.start.shift 2 ≤ tag.header.span.stop))
  | .paragraph p => inferInstanceAs (Decidable ((p.content.map Comment.span).IsChain Span.Follows))
  | .command form base =>
    inferInstanceAs (Decidable ((form.showsParagraph = true → ∀ p ∈ base.paragraph,
      p.content.isEmpty = false → base.header.span.start ≤ p.header.span.start) ∧
      (∀ line ∈ form.lines.head?, base.header.span.start ≤ line.header.span.start) ∧
      (form.lines.map (·.header.span)).IsChain Span.Follows))
  | .verbatimBlockLine line =>
    inferInstanceAs (Decidable (line = .make line.header.span.start line.text ∧
      line.header.span.IsRange ∧ line.text.utf8ByteSize < 2147483647))

def Quiet (c : Comment) : Prop :=
  ∀ parent : Header, c.violationsUnder parent = parent.edgeViolations c.header

theorem quietNode {c : Comment} (own : c.header.violations = [])
    (below : ∀ d ∈ c.children, Quiet d ∧ c.header.edgeViolations d.header = []) : Quiet c := by
  intro parent
  rw [violationsUnder_eq, own, List.append_nil]
  have none : (c.children.flatMap fun d => d.violationsUnder c.header) = [] := by
    refine List.flatMap_eq_nil_iff.mpr fun d member => ?_
    obtain ⟨quiet, edge⟩ := below d member
    rw [quiet, edge]
  rw [none, List.append_nil]

theorem leafQuiet {m c} (shaped : Shaped m c) (ordered : Ordered c)
    (inline : c.kind.isInlineContent = true) : c.span.IsRange ∧ Quiet c := by
  obtain ⟨_, kind, built⟩ := shaped
  have inline : c.contentKind.isInlineContent = true := (kind.child .paragraph).symm.trans inline
  cases c with
  | text n =>
    have own : n.header.violations = [] := startQuiet built fun _ => ordered.ordered
    exact ⟨ordered, quietNode own (by simp [children])⟩
  | inlineCommand n =>
    have own : n.header.violations = [] := startQuiet built fun _ => ordered.ordered
    exact ⟨ordered, quietNode own (by simp [children])⟩
  | startTag tag =>
    obtain ⟨location, stop⟩ := built
    refine ⟨ordered.1, quietNode (ownQuiet fun _ => ?_) (by simp [children])⟩
    simp only [header, location]
    have short := Location.pastTextForward tag.header.span.start 1 (by omega) (by omega)
      ordered.2
    exact ⟨Location.shiftForward _ (by omega), Nat.le_trans short stop⟩
  | endTag tag =>
    have location : tag.header.location = tag.header.span.start.shift 2 := built
    refine ⟨ordered.1, quietNode (ownQuiet fun _ => ?_) (by simp [children])⟩
    simp only [header, location]
    exact ⟨Location.shiftForward _ (by omega), ordered.2⟩
  | paragraph p => cases inline
  | command form base => cases form <;> cases inline
  | verbatimBlockLine line => cases inline

theorem paragraphQuiet {m} {p : Paragraph Comment} (all : Everywhere (Shaped m) (.paragraph p))
    (fit : m = .unchecked → Below (fits · = true) (.paragraph p))
    (ordered : Below Ordered (.paragraph p)) :
    (p.header.span.isValid = false → p.header.span = .unset) ∧
      (p.header.span.isValid = true → p.content ≠ [] ∧ p.header.span.IsRange) ∧
        Quiet (.paragraph p) := by
  obtain ⟨_, kind, location, span, checked⟩ := everywhereOwn all
  have inline : fits (.paragraph p) = true := by
    cases m with
    | checked => exact checked rfl
    | unchecked => exact belowOwn (fit rfl)
  have kinds : ∀ c ∈ p.content, c.kind.isInlineContent = true := List.all_eq_true.mp inline
  have leaf : ∀ c ∈ p.content, c.span.IsRange ∧ Quiet c := fun c member =>
    leafQuiet (everywhereOwn (everywhereContent all c member))
      (belowOwn (belowChild ordered c member)) (kinds c member)
  have ranges : ∀ x ∈ p.content.map Comment.span, x.IsRange := by
    intro x member
    obtain ⟨c, inside, rfl⟩ := List.mem_map.mp member
    exact (leaf c inside).1
  have chained : (p.content.map Comment.span).IsChain Span.Follows := belowOwn ordered
  have range (some : p.content ≠ []) : p.header.span.IsRange := by
    rw [span]
    exact Span.hullRange (by simpa using some) chained ranges
  have none (nothing : p.content = []) : p.header.span = .unset := by
    rw [span, nothing]
    rfl
  have some (valid : p.header.span.isValid = true) : p.content ≠ [] := by
    intro nothing
    rw [none nothing] at valid
    cases valid
  have own : p.header.violations = [] :=
    startQuiet location fun valid => (range (some valid)).ordered
  refine ⟨fun unset => none (Decidable.byContradiction fun content => ?_),
    fun valid => ⟨some valid, range (some valid)⟩, quietNode own ?_⟩
  · rw [(range content).valid] at unset
    cases unset
  · intro c member
    have inside := Span.hullHolds chained ranges c.span (List.mem_map_of_mem member)
    refine ⟨(leaf c member).2, edgeQuiet ?_ (fun _ => (leaf c member).1.ordered) fun _ _ => ?_⟩
    · exact (kind.parent c.kind).trans (kinds c member)
    · simp only [header, span]
      exact inside

theorem lineQuiet {line : VerbatimBlockLine} (ordered : Ordered (.verbatimBlockLine line)) :
    line.header.kind = .verbatimBlockLine ∧ Quiet (.verbatimBlockLine line) := by
  obtain ⟨made, range, short⟩ := ordered
  have kind : line.header.kind = .verbatimBlockLine := by
    rw [made]
    exact Word.kindOfKind .verbatimBlockLine
  have location : line.header.location = line.header.span.start := by rw [made]; rfl
  have own : line.header.violations = [] := startQuiet location fun _ => range.ordered
  exact ⟨kind, quietNode own (by simp [children])⟩

theorem linesInside {base : Header} {lines : List VerbatimBlockLine}
    (first : ∀ line, lines.head? = some line → base.span.start ≤ line.header.span.start)
    (last : ∀ line, lines.getLast? = some line → line.header.span.stop ≤ base.span.stop)
    (chained : (lines.map (·.header.span)).IsChain Span.Follows)
    (ranges : ∀ line ∈ lines, line.header.span.IsRange) :
    ∀ line ∈ lines, base.span.start ≤ line.header.span.start ∧
      line.header.span.stop ≤ base.span.stop := by
  cases lines with
  | nil => simp
  | cons head rest =>
    have spans : ∀ x ∈ (head :: rest).map (·.header.span), x.IsRange := by
      intro x member
      obtain ⟨line, inside, rfl⟩ := List.mem_map.mp member
      exact ranges line inside
    have final := last _ List.getLast?_cons
    intro line member
    have listed := List.mem_map_of_mem (f := (·.header.span)) member
    have start := Span.chainStart chained spans _ listed
    have stop := Span.chainStop chained spans _ listed
    rw [List.getLastD_map (f := fun line : VerbatimBlockLine => line.header.span)] at stop
    rw [← List.getLastD_eq_getLast?] at final
    exact ⟨Nat.le_trans (first head rfl) start, Nat.le_trans stop final⟩

theorem commandQuiet {m form} {base : BlockCommand Comment}
    (all : Everywhere (Shaped m) (.command form base))
    (fit : m = .unchecked → Below (fits · = true) (.command form base))
    (ordered : Below Ordered (.command form base))
    (opened : base.header.span.start.shift 1 ≤ base.header.span.stop) :
    Quiet (.command form base) := by
  obtain ⟨_, kind, location, reach, last⟩ := everywhereOwn all
  obtain ⟨shown, first, chained⟩ := belowOwn ordered
  refine quietNode (ownQuiet fun _ => ?_) fun d member => ?_
  · simp only [header, location]
    exact ⟨Location.shiftForward _ (by omega), opened⟩
  have below := belowChild ordered d member
  have fitBelow (unchecked : m = .unchecked) := belowChild (fit unchecked) d member
  simp only [children] at member
  cases shows : form.showsParagraph with
  | true =>
    rw [shows, if_pos rfl] at member
    obtain ⟨p, held, rfl⟩ := Option.map_eq_some_iff.mp (Option.mem_toList.mp member)
    have inner := everywhereParagraph all held
    obtain ⟨_, range, quiet⟩ := paragraphQuiet inner fitBelow below
    have child : form.kind.allows p.header.kind = form.kind.allows .paragraph :=
      (everywhereOwn inner).kind.child form.kind
    refine ⟨quiet, edgeQuiet ?_ (fun valid => (range valid).2.ordered) fun _ valid => ?_⟩
    · refine ((kind.parent p.header.kind).trans child).trans ?_
      cases form <;> first | rfl | cases shows
    · exact ⟨shown shows p held (by simpa using (range valid).1), reach p held⟩
  | false =>
    rw [shows, if_neg (by decide)] at member
    obtain ⟨line, listed, rfl⟩ := List.mem_map.mp member
    have ranges : ∀ line ∈ form.lines, line.header.span.IsRange := by
      intro other inside
      have child : .verbatimBlockLine other ∈ (Comment.command form base).children := by
        simp only [children, shows]
        exact List.mem_map_of_mem inside
      exact (belowOwn (belowChild ordered _ child)).2.1
    obtain ⟨child, quiet⟩ := lineQuiet (belowOwn below)
    refine ⟨quiet, edgeQuiet ?_ (fun _ => (ranges line listed).ordered) fun _ _ => ?_⟩
    · refine (kind.parent line.header.kind).trans ?_
      rw [child]
      cases form with
      | verbatimBlock => rfl
      | _ => cases listed
    · exact linesInside first last chained ranges line listed

theorem blockQuiet {m c} (all : Everywhere (Shaped m) c)
    (fit : m = .unchecked → Below (fits · = true) c) (ordered : Below Ordered c)
    (block : c.kind.isBlockContent = true)
    (opened : ∀ form base, c = .command form base → base.header.span.isValid = true ∧
      base.header.span.start.shift 1 ≤ base.header.span.stop) :
    (c.span.isValid = false → c.span = .unset) ∧ (c.span.isValid = true → c.span.IsRange) ∧
      Quiet c := by
  have kind := (everywhereOwn all).kind
  have block : c.contentKind.isBlockContent = true := (kind.child .fullComment).symm.trans block
  cases c with
  | paragraph p =>
    obtain ⟨unset, range, quiet⟩ := paragraphQuiet all fit ordered
    exact ⟨unset, fun valid => (range valid).2, quiet⟩
  | command form base =>
    obtain ⟨valid, start⟩ := opened form base rfl
    refine ⟨fun unset => ?_, fun valid => ⟨valid, ?_⟩, commandQuiet all fit ordered start⟩
    · rw [show base.header.span.isValid = false from unset] at valid
      nomatch valid
    · exact Nat.le_trans (Location.shiftForward _ (by omega)) start
  | _ => nomatch block

theorem actionsExtend {m t actions} {c d : Comment} (h : Action.actAll m t actions c = .ok d)
    (all : Everywhere Cached c) : c.header.Extends d.header ∧ d.contentKind = c.contentKind := by
  induction actions generalizing c with
  | nil => cases h; exact ⟨extendsSame _, rfl⟩
  | cons a rest ih =>
    obtain ⟨⟨_, next⟩, acted, others⟩ := bindOk.mp h
    have change := actChange acted all
    have later := ih others (upheldAct (cachedUpheld m) a acted all)
    exact ⟨extendsTrans (changeHeader change) later.1, later.2.trans (changeContent change)⟩

end Comment

namespace FullComment
open Comment

structure InSourceOrder (f : FullComment) : Prop where
  nodes : ∀ c ∈ f.blocks, Below Ordered c
  blocks : ((f.blocks.map Comment.span).filter (·.isValid)).IsChain Span.Follows

instance (f : FullComment) : Decidable f.InSourceOrder :=
  decidable_of_iff (_ ∧ _) ⟨fun h => ⟨h.1, h.2⟩, fun h => ⟨h.nodes, h.blocks⟩⟩

structure Fits (f : FullComment) : Prop where
  blocks : f.blocks.all (·.kind.isBlockContent) = true
  below : ∀ c ∈ f.blocks, Below (fits · = true) c

theorem rootQuiet {blocks info}
    (quiet : ∀ c ∈ blocks, (c.span.isValid = false → c.span = .unset) ∧
      (c.span.isValid = true → c.span.IsRange) ∧ Quiet c)
    (kinds : blocks.all (·.kind.isBlockContent) = true)
    (chained : ((blocks.map Comment.span).filter (·.isValid)).IsChain Span.Follows) :
    (ofBlocks blocks info).violations = [] := by
  have kind : (ofBlocks blocks info).header.kind = .fullComment := Word.kindOfKind .fullComment
  have unset : ∀ x ∈ blocks.map Comment.span, x.isValid = false → x = .unset := by
    intro x member
    obtain ⟨c, inside, rfl⟩ := List.mem_map.mp member
    exact (quiet c inside).1
  have ranges : ∀ x ∈ (blocks.map Comment.span).filter (·.isValid), x.IsRange := by
    intro x member
    obtain ⟨listed, valid⟩ := List.mem_filter.mp member
    obtain ⟨c, inside, rfl⟩ := List.mem_map.mp listed
    exact (quiet c inside).2.1 valid
  have own : (ofBlocks blocks info).header.violations = [] := by
    refine Header.ownQuiet fun valid => ⟨Nat.le_refl _, ?_⟩
    have same := Span.hullPositioned unset valid
    have range : (Span.hull ((blocks.map Comment.span).filter (·.isValid))).IsRange := by
      refine Span.hullRange (fun none => ?_) chained ranges
      rw [none] at same
      have positioned : (Span.hull []).isValid = true := by rw [same]; exact valid
      nomatch positioned
    rw [same] at range
    exact range.ordered
  have below : ∀ c ∈ blocks, (ofBlocks blocks info).header.edgeViolations c.header = [] := by
    intro c member
    obtain ⟨_, range, _⟩ := quiet c member
    refine Header.edgeQuiet ?_ (fun valid => (range valid).ordered) fun outer inner => ?_
    · rw [kind]
      exact List.all_eq_true.mp kinds c member
    · have same := Span.hullPositioned unset outer
      have listed : c.span ∈ (blocks.map Comment.span).filter (·.isValid) :=
        List.mem_filter.mpr ⟨List.mem_map_of_mem member, inner⟩
      have inside := Span.hullHolds chained ranges c.span listed
      rw [same] at inside
      exact inside
  unfold violations
  rw [own, List.nil_append]
  refine List.flatMap_eq_nil_iff.mpr fun c member => ?_
  rw [(quiet c member).2.2]
  exact below c member

end FullComment
end DocTree
