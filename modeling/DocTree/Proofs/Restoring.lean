import DocTree.Proofs.AttributeMaps
import DocTree.Proofs.JsonText
import DocTree.Proofs.Mirroring

/-! Snapshots read back from their JSON text. The text of a snapshot gives the snapshot again
exactly if no node in it is so deep that the reader stops. In a tree that was built with checks
every node stands near the top, so its snapshot always comes back. -/
namespace DocTree

section

variable {attributes before : List (String × String)}

theorem putLast {key value : String} (less : ∀ e ∈ attributes, e.1 < key) :
    putAttribute key value attributes = attributes ++ [(key, value)] := by
  induction attributes with
  | nil => rfl
  | cons first rest ih =>
    rw [List.forall_mem_cons] at less
    rw [putLater (String.lt_asymm less.1) (String.ne_of_lt less.1).symm, ih less.2]
    rfl

theorem putAllAscended (ascending : Ascending (before ++ attributes)) :
    putAll before attributes = before ++ attributes := by
  induction attributes generalizing before with
  | nil => exact (List.append_nil _).symm
  | cons first rest ih =>
    have below : ∀ e ∈ before, e.1 < first.1 := fun e member =>
      (List.pairwise_append.mp ascending).2.2 e member first List.mem_cons_self
    rw [List.append_cons] at ascending ⊢
    rw [← ih ascending, ← putLast below]
    rfl

end

namespace Snapshot

theorem toJsonAll_eq (ss : List Snapshot) : toJsonAll ss = ss.map toJson := by
  induction ss with
  | nil => rfl
  | cons s rest ih => rw [toJsonAll, ih, List.map_cons]

theorem jsonTextual (s : Snapshot) : s.toJson.Textual := by
  induction s using inductChildren with
  | step s ih =>
    obtain ⟨type, label, attributes, children⟩ := s
    have shown : Json.Textual
        (.object (attributes.map fun e => (some e.1, .text e.2))) := by
      refine .object ?_ ?_ <;> simp only [List.forall_mem_map]
      · exact fun e _ => ⟨e.1, rfl⟩
      · exact fun e _ => .text e.2
    have below : Json.Textual (.array (children.map toJson)) :=
      .array (List.forall_mem_map.mpr ih)
    rw [toJson, toJsonAll_eq]
    refine .object ?_ ?_ <;> simp only [List.forall_mem_cons, List.not_mem_nil, false_implies,
      implies_true, and_true]
    · exact ⟨⟨_, rfl⟩, ⟨_, rfl⟩, ⟨_, rfl⟩, _, rfl⟩
    · exact ⟨.text type, .text label, shown, below⟩

theorem attributesRead (attributes : List (String × String)) :
    attributesOf? (.object (attributes.map fun (key, value) => (some key, .text value))) =
      some (putAll [] attributes) := by
  unfold attributesOf? putAll
  generalize [] = before
  induction attributes generalizing before with
  | nil => rfl
  | cons first rest ih => exact ih _

theorem mapSame {α : Type} {f : α → Option α} {xs : List α} :
    xs.mapM f = some xs ↔ ∀ x ∈ xs, f x = some x := by
  induction xs with
  | nil => simp
  | cons x rest ih =>
    rw [List.mapM_cons, List.forall_mem_cons, ← ih]
    cases f x <;> cases rest.mapM f <;> simp

theorem childrenPaths {s : Snapshot} {P : Nat → Snapshot → Prop} :
    (∀ path u, s.at? path = some u → P path.length u) ↔ P 0 s ∧
      ∀ child ∈ s.children, ∀ path u, child.at? path = some u → P (path.length + 1) u := by
  constructor
  · refine fun all => ⟨all [] s rfl, fun child member path u found => ?_⟩
    obtain ⟨i, held⟩ := List.getElem?_of_mem member
    exact all (i :: path) u (Option.bind_eq_some_iff.mpr ⟨child, held, found⟩)
  · rintro ⟨own, below⟩ path u found
    cases path with
    | nil => cases found; exact own
    | cons i path =>
      obtain ⟨child, held, inside⟩ := Option.bind_eq_some_iff.mp found
      exact below child (List.mem_of_getElem? held) path u inside

theorem ofJsonNode {s : Snapshot} (ascending : Ascending s.attributes) (levels : Nat) :
    ofJsonWithin? (levels + 2) s.toJson =
      (s.children.mapM fun child => ofJsonWithin? levels child.toJson).map
        (node s.type s.label s.attributes) := by
  obtain ⟨type, label, attributes, children⟩ := s
  have text (s : String) : textOf? (.text s) = some s := rfl
  have items : itemsOf? (.array (children.map toJson)) = some (children.map toJson) := rfl
  have shown := attributesRead attributes
  rw [show putAll [] attributes = attributes from putAllAscended ascending] at shown
  have fields : fieldsOf? (node type label attributes children).toJson =
      some (.text type, .text label,
        .object (attributes.map fun (key, value) => (some key, .text value)),
        .array (children.map toJson)) := by
    rw [toJson, toJsonAll_eq]
    rfl
  rw [ofJsonWithin?, fields]
  simp only [Option.bind_eq_bind, Option.bind_some, text, items, shown, List.mapM_map]
  exact Option.map_eq_bind.symm

theorem nodeRestored {s : Snapshot} (ascending : Ascending s.attributes) (levels : Nat) :
    ofJsonWithin? (levels + 2) s.toJson = some s ↔
      ∀ child ∈ s.children, ofJsonWithin? levels child.toJson = some child := by
  rw [ofJsonNode ascending, ← mapSame]
  cases s
  simp [type, label, attributes, children]

theorem restoredWithin {s : Snapshot}
    (ascending : ∀ path u, s.at? path = some u → Ascending u.attributes) (levels : Nat) :
    ofJsonWithin? levels s.toJson = some s ↔
      ∀ path u, s.at? path = some u → 2 * path.length + 2 ≤ levels := by
  induction s using inductChildren generalizing levels with
  | step s ih =>
    obtain ⟨own, inner⟩ := (childrenPaths (P := fun _ u => Ascending u.attributes)).mp ascending
    rw [childrenPaths (P := fun depth _ => 2 * depth + 2 ≤ levels)]
    match levels with
    | 0 | 1 => exact iff_of_false (by simp [ofJsonWithin?]) (by simp)
    | levels + 2 =>
      rw [nodeRestored own, and_iff_right (by omega)]
      refine forall₂_congr fun child member => ?_
      rw [ih child member (inner child member)]
      refine forall₃_congr fun path u found => ?_
      omega

theorem parseJson {s : Snapshot}
    (ascending : ∀ path u, s.at? path = some u → Ascending u.attributes) :
    parse? s.json = some s ↔ ∀ path u, s.at? path = some u → path.length < 63 := by
  rw [parse?, json, Json.parsePretty (jsonTextual s), Option.bind_some, restoredWithin ascending]
  refine forall₃_congr fun path u found => ?_
  rw [maxLevels]
  omega

end Snapshot

namespace Comment

variable {t : CommandTable} {c : Comment} {s : Snapshot}

theorem snapshotAscending (taken : c.snapshot t = .ok s) : Ascending s.attributes := by
  obtain ⟨own, inside, node, rfl, _⟩ := snapshotInside taken
  have listed := nodeListed node
  cases own
  exact listed.once

theorem picturedSome {here : Option Comment} {u : Snapshot} (pictured : Pictured t here (some u)) :
    ∃ d, here = some d ∧ d.snapshot t = .ok u := by
  cases pictured with
  | some taken => exact ⟨_, rfl, taken⟩

theorem picturedDepth {found : Option Comment} {shown : Option Snapshot}
    {n depth : Nat} (pictured : Pictured t found shown) :
    (∀ u, shown = some u → depth < n) ↔ ∀ d, found = some d → depth < n := by
  cases pictured <;> simp

theorem snapshotRestored (taken : c.snapshot t = .ok s) : Snapshot.parse? s.json = some s ↔
    ∀ path d, c.at? path = some d → path.length < 63 := by
  have pictured (path : List Nat) := snapshotAt taken path
  rw [Snapshot.parseJson fun path u found => ?_]
  · exact forall_congr' fun path => picturedDepth (pictured path)
  · obtain ⟨_, _, inner⟩ := picturedSome (found ▸ pictured path)
    exact snapshotAscending inner

structure Contained (m : Mode) (c : Comment) : Prop where
  cached : Cached c
  near : c.kind.Near c.contentKind
  inline : m = .checked → fits c = true

theorem rereadInline {c d : Comment} (h : Reread c d) : fits d = fits c := by
  induction h with
  | trans first second left right => exact right.trans left
  | content inside =>
    have kind := (rereadAgrees inside).kind
    simp only [fits, List.all_append, List.all_cons, Comment.kind, kind]
  | _ => rfl

theorem changeInline {P} {c d : Comment} (h : Change P c d) : fits d = fits c := by
  cases h with
  | read reread => exact rereadInline reread
  | _ => rfl

theorem containedChange {m P} {c d : Comment} (h : Change P c d) (cached : Cached d)
    (own : Contained m c) : Contained m d where
  cached := cached
  near := by
    have kind : d.kind = c.kind := (changeHeader h).kind
    rw [changeContent h, kind]
    exact own.near
  inline checked := (changeInline h).trans (own.inline checked)

theorem containedUpheld (m : Mode) : Upheld m (Contained m) where
  stable := stableKept fun {c d} related own =>
    have change : Change (fun _ => True) c d := .read related
    containedChange change (rereadOwn cachedStable related own.cached) own
  cached := Contained.cached
  fresh h := by
    have sound := (soundUpheld m).fresh h
    exact ⟨sound.cached, .inl sound.kind, fun _ => by cases h <;> rfl⟩
  paragraph {content} inline := by
    have sound := (soundUpheld m).paragraph inline
    refine ⟨sound.cached, .inl sound.kind, fun checked => ?_⟩
    rw [fits, Paragraph.ofContentContent]
    exact inline checked
  change h own := containedChange h ((cachedUpheld m).change h own.cached) own

theorem containedMoved {m form next} {base : BlockCommand Comment}
    (own : Contained m (.command form base)) : Contained m (.command next base) where
  cached := trivial
  near := Kind.nearCommand form.isCommand next.isCommand own.near
  inline _ := rfl

theorem standingContained {m} {c : Comment} : Standing m c → Everywhere (Contained m) c
  | ⟨_, _, made, here⟩ =>
    Root.partEverywhere (madeUpheld (containedUpheld m) containedMoved made) here

theorem inlineLeaf {m} {c : Comment} (own : Contained m c)
    (inline : c.kind.isInlineContent = true) : c.children = [] := by
  have content : c.contentKind.isInlineContent = true :=
    (Kind.nearIsA own.near .inlineContent).symm.trans inline
  cases c with
  | paragraph => cases content
  | command form => cases form <;> cases content
  | _ => rfl

theorem leafPath {c d : Comment} (leaf : c.children = []) {path : List Nat}
    (found : c.at? path = some d) : path.length ≤ 0 := by
  cases path with
  | nil => exact Nat.le_refl _
  | cons i path => simp [at?, leaf] at found

theorem childPath {c d : Comment} {n : Nat} {path : List Nat} (found : c.at? path = some d)
    (each : ∀ e ∈ c.children, ∀ path d, e.at? path = some d → path.length ≤ n) :
    path.length ≤ n + 1 := by
  cases path with
  | nil => exact Nat.zero_le _
  | cons i path =>
    obtain ⟨e, held, inside⟩ := Option.bind_eq_some_iff.mp found
    exact Nat.succ_le_succ (each e (List.mem_of_getElem? held) path d inside)

theorem paragraphPath {p : Paragraph Comment} {d : Comment} {path : List Nat}
    (all : Everywhere (Contained .checked) (.paragraph p))
    (found : (paragraph p).at? path = some d) : path.length ≤ 1 := by
  have inline := List.all_eq_true.mp ((everywhereOwn all).inline rfl)
  refine childPath found fun e member path d inside => ?_
  have own := everywhereOwn (everywhereContent all e member)
  exact leafPath (inlineLeaf own (inline e member)) inside

theorem checkedPath {c d : Comment} {path : List Nat} (all : Everywhere (Contained .checked) c)
    (found : c.at? path = some d) : path.length ≤ 2 := by
  cases c with
  | paragraph p => exact Nat.le_succ_of_le (paragraphPath all found)
  | command form base =>
    refine childPath found fun e member path d inside => ?_
    rcases commandChild member with ⟨_, p, held, rfl⟩ | ⟨_, line, _, rfl⟩
    · exact paragraphPath (everywhereParagraph all held) inside
    · exact Nat.le_succ_of_le (leafPath rfl inside)
  | _ => exact Nat.le_trans (leafPath rfl found) (by decide)

end Comment

namespace FullComment
open Comment

variable {t : CommandTable} {f : FullComment} {s : Snapshot}

theorem snapshotRestored (taken : f.snapshot t = .ok s) : Snapshot.parse? s.json = some s ↔
    ∀ path d, f.at? path = some d → path.length < 63 := by
  have pictured (i : Nat) (path : List Nat) := picturedAt taken i path
  obtain ⟨_, _, same⟩ := bindOk.mp taken
  rw [Snapshot.parseJson fun path u found => ?_]
  · refine forall_congr' fun path => ?_
    cases path with
    | nil => exact iff_of_true (fun _ _ => by decide) nofun
    | cons i path => exact picturedDepth (pictured i path)
  · cases path with
    | nil => cases same; cases found; exact .nil
    | cons i path =>
      obtain ⟨_, _, inner⟩ := picturedSome (found ▸ pictured i path)
      exact snapshotAscending inner

theorem checkedDepth (made : Made .checked (.tree f)) {path : List Nat} {d : Comment}
    (found : f.at? path = some d) : path.length ≤ 3 := by
  cases path with
  | nil => exact Nat.zero_le _
  | cons i path =>
    obtain ⟨c, held, inside⟩ := Option.bind_eq_some_iff.mp found
    have all := madeUpheld (containedUpheld .checked) containedMoved made c
      (List.mem_of_getElem? held)
    exact Nat.succ_le_succ (checkedPath all inside)

theorem snapshotsRestored (t : CommandTable) :
    (∀ c, Standing .checked c → ∃ s, c.snapshot t = .ok s ∧ Snapshot.parse? s.json = some s) ∧
    (∀ f, Made .checked (.tree f) →
      ∃ s, f.snapshot t = .ok s ∧ Snapshot.parse? s.json = some s) ∧
    (∀ c s, Comment.snapshot t c = .ok s → (Snapshot.parse? s.json = some s ↔
      ∀ path d, c.at? path = some d → path.length < 63)) ∧
    ∀ (f : FullComment) s, f.snapshot t = .ok s → (Snapshot.parse? s.json = some s ↔
      ∀ path d, f.at? path = some d → path.length < 63) := by
  refine ⟨fun c stands => ?_, fun f made => ?_, fun _ _ => Comment.snapshotRestored,
    fun _ _ => snapshotRestored⟩
  · obtain ⟨s, taken⟩ := snapshotHolds t c (standingCached stands)
    refine ⟨s, taken, (Comment.snapshotRestored taken).mpr fun path d found => ?_⟩
    exact Nat.lt_of_le_of_lt (checkedPath (standingContained stands) found) (by decide)
  · obtain ⟨s, taken⟩ := snapshotMade made t
    refine ⟨s, taken, (snapshotRestored taken).mpr fun path d found => ?_⟩
    exact Nat.lt_of_le_of_lt (checkedDepth made found) (by decide)

def oddText : String := "\"\\/\x00\x1f\x7f\n\t\u2028😀"

def oddTag : StartTag :=
  (StartTag.make (.valid 0) oddText).setAttributes
    [⟨.valid 3, oddText, .valid 4, .unset, some oddText⟩]

def oddParagraph : Paragraph Comment :=
  .ofContent [.text (.make (.valid 0) (.valid 1) oddText), .startTag oddTag]

def oddTree : FullComment :=
  .ofBlocks [.paragraph oddParagraph] (.ofDecl (.constant oddText .plain))

theorem oddRestored : Standing .checked (.startTag oddTag) ∧ Made .checked (.tree oddTree) ∧
    (∃ s, Comment.snapshot .empty (.startTag oddTag) = .ok s ∧
      s.attributes = [("attr." ++ oddText, oddText)] ∧ Snapshot.parse? s.json = some s) ∧
    ∃ s, oddTree.snapshot .empty = .ok s ∧ s.label = oddText ∧
      Snapshot.parse? s.json = some s := by
  have text : Made .checked (.node (.text (.make (.valid 0) (.valid 1) oddText))) :=
    @Made.seed _ .empty _ (.text (.valid 0) (.valid 1) oddText) rfl
  have bare : Made .checked (.node (.startTag (.make (.valid 0) oddText))) :=
    @Made.seed _ .empty _ (.startTag (.valid 0) oddText) rfl
  have tag : Made .checked (.node (.startTag oddTag)) :=
    .use bare .empty (.act (.setAttributes _))
  have paragraph : Made .checked (.node (.paragraph oddParagraph)) :=
    .paragraph (List.forall_mem_cons.mpr ⟨text, List.forall_mem_singleton.mpr tag⟩) rfl
  have tree : Made .checked (.tree oddTree) := .tree (List.forall_mem_singleton.mpr paragraph) rfl
  have stands := madeStanding tag
  obtain ⟨single, whole, _⟩ := snapshotsRestored .empty
  obtain ⟨s, taken, back⟩ := single _ stands
  obtain ⟨u, shown, again⟩ := whole _ tree
  refine ⟨stands, tree, ⟨s, taken, ?_, back⟩, u, shown, ?_, again⟩
  · cases taken
    rfl
  · cases shown
    rfl

end FullComment
end DocTree
