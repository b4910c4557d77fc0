import DocTree.Proofs.Mirroring
import DocTree.Proofs.ResolveFrame
import Mathlib.Algebra.GroupWithZero.Nat

/-! Line breaks in outlines. A label is quoted and stays on its line, but keys and values of
attributes are written as they are, so each break in one adds a line. Without any, an outline has
one line for each node, with the node's type behind two blanks for each level. -/
namespace DocTree

def breaks (text : String) : Nat := text.toList.count '\n'

@[simp] theorem breaksAppend (a b : String) : breaks (a ++ b) = breaks a + breaks b := by
  simp [breaks]

theorem breaksBetween {between : String} (plain : breaks between = 0) (texts : List String) :
    breaks (String.intercalate between texts) = (texts.map breaks).sum := by
  unfold breaks at *
  rw [String.toList_intercalate]
  induction texts with
  | nil => rfl
  | cons text rest ih =>
    cases rest with
    | nil => simp
    | cons next rest => simp_all [List.intercalate_cons_cons]

theorem numeralUnbroken {base : Nat} (large : 1 < base) (n : Nat) :
    '\n' ∉ Nat.toDigits base n := by
  induction n using Nat.strongRecOn with
  | ind n ih =>
    rw [Nat.toDigits_eq_if large]
    split
    · simp
    · have smaller : n / base < n := Nat.div_lt_self (by omega) large
      simp [ih _ smaller]

@[simp] theorem breaksNumber (n : Nat) : breaks (toString n) = 0 := by
  refine List.count_eq_zero.mpr ?_
  simpa [toString] using numeralUnbroken (by omega) n

namespace Quoted

theorem escapeUnbroken (c : Char) : '\n' ∉ escapeChar c := by
  unfold escapeChar
  split_ifs with quote slash newline
  any_goals decide
  · simpa [eq_comm] using newline
  · simpa [hexDigits] using numeralUnbroken (by omega) c.toNat

@[simp] theorem breaksQuote (text : String) : breaks (quote text) = 0 := by
  refine List.count_eq_zero.mpr ?_
  simp [quote, escapeUnbroken]

end Quoted

abbrev Unbroken (entries : List (String × String)) : Prop :=
  ∀ e ∈ entries, breaks e.1 = 0 ∧ breaks e.2 = 0

namespace Snapshot

theorem outlineAll_eq (depth : Nat) (ss : List Snapshot) :
    (outlineAll depth ss).toList = ss.flatMap fun s => (s.outlineAt depth).toList := by
  induction ss with
  | nil => rfl
  | cons s rest ih => simp [outlineAll, ih]

def line (entry : Nat × Snapshot) : String :=
  String.join (List.replicate entry.1 "  ") ++
    headline entry.2.type entry.2.label entry.2.attributes

theorem outlineLines (s : Snapshot) (depth : Nat) :
    (s.outlineAt depth).toList = (s.nodesAt depth).flatMap fun e => (line e).toList ++ ['\n'] := by
  induction s using inductChildren generalizing depth with
  | step s ih =>
    have below : s.children.flatMap (fun u => (u.outlineAt (depth + 1)).toList) =
        s.children.flatMap fun u =>
          (u.nodesAt (depth + 1)).flatMap fun e => (line e).toList ++ ['\n'] :=
      List.flatMap_congr fun u member => ih u member (depth + 1)
    rw [nodesAt_eq, List.flatMap_cons, List.flatMap_assoc, ← below]
    cases s
    simp [outlineAt, outlineAll_eq, line, children, type, label, attributes]

def attributeBreaks (s : Snapshot) : Nat :=
  (s.attributes.map fun (key, value) => breaks key + breaks value).sum

theorem lineBreaks (entry : Nat × Snapshot) :
    breaks (line entry) = breaks entry.2.type + entry.2.attributeBreaks := by
  have indent : breaks (String.join (List.replicate entry.1 "  ")) = 0 := by
    simp [breaks, String.toList_join, List.count_flatMap]
  have shown : breaks (String.intercalate ", " (entry.2.attributes.map fun (key, value) =>
      key ++ "=" ++ value)) = entry.2.attributeBreaks := by
    rw [breaksBetween rfl]
    simp [attributeBreaks, Function.comp_def, breaks]
  have blank : breaks " " = 0 := rfl
  have opening : breaks " \x7b" = 0 := rfl
  have closing : breaks "\x7d" = 0 := rfl
  unfold line headline
  split_ifs with none
  · have bare : entry.2.attributes = [] := List.isEmpty_iff.mp none
    simp [indent, blank, attributeBreaks, bare]
  · simp [indent, shown, blank, opening, closing]

theorem attributesUnbroken {s : Snapshot} :
    s.attributeBreaks = 0 ↔ Unbroken s.attributes := by
  unfold attributeBreaks
  rw [List.sum_eq_zero_iff_forall_eq_nat, List.forall_mem_map]
  exact forall₂_congr fun _ _ => Nat.add_eq_zero_iff

theorem outlineBreaks (s : Snapshot) (types : ∀ e ∈ s.nodesAt 0, breaks e.2.type = 0) :
    breaks s.outline =
      (s.nodesAt 0).length + ((s.nodesAt 0).map fun e => e.2.attributeBreaks).sum := by
  unfold outline
  rw [breaks, outlineLines, List.count_flatMap]
  revert types
  induction s.nodesAt 0 with
  | nil => exact fun _ => rfl
  | cons e rest ih =>
    intro types
    rw [List.forall_mem_cons] at types
    have own : ((line e).toList ++ ['\n']).count '\n' = e.2.attributeBreaks + 1 := by
      rw [List.count_append, ← breaks, lineBreaks, types.1, Nat.zero_add]
      rfl
    simp [own, ih types.2]
    omega

theorem outlineClosed (s : Snapshot) : ∃ text, s.outline = text ++ "\n" := by
  have held : s.nodesAt 0 ≠ [] := by simp [nodesAt_eq]
  have lines := outlineLines s 0
  rw [← List.dropLast_append_getLast held, List.flatMap_append, List.flatMap_singleton,
    ← List.append_assoc] at lines
  obtain ⟨before, same⟩ : ∃ before, s.outline.toList = before ++ ['\n'] := ⟨_, lines⟩
  refine ⟨.ofList before, String.toList_injective ?_⟩
  rw [same, String.toList_append, String.toList_ofList]
  rfl

end Snapshot

theorem splitLines {ls : List (List Char)} (each : ∀ l ∈ ls, '\n' ∉ l) :
    (ls.flatMap (· ++ ['\n'])).splitOn '\n' = ls ++ [[]] := by
  induction ls with
  | nil => rfl
  | cons l rest ih =>
    rw [List.forall_mem_cons] at each
    rw [List.flatMap_cons, List.append_assoc, List.singleton_append,
      List.splitOn_append_cons_self_of_not_mem each.1, ih each.2]
    rfl

theorem splitCount (text : List Char) : (text.splitOn '\n').length = text.count '\n' + 1 := by
  induction text with
  | nil => rfl
  | cons c rest ih =>
    rw [List.splitOn_cons_eq_if_modifyHead, List.count_cons]
    split <;> simp_all

theorem Kind.nameUnbroken (k : Kind) : breaks k.name = 0 := by cases k <;> rfl

namespace Comment

def rawTexts : Comment → List String
  | .inlineCommand node => node.args.map Argument.text
  | .startTag node => node.attributes.flatMap fun a => a.name :: a.value?.toList
  | .command form base =>
    base.args.map Argument.text ++
      match form with
      | .verbatimBlock closeName _ _ => [closeName]
      | .verbatimLine _ content => [content]
      | _ => []
  | _ => []

theorem entryUnbroken {key value : String} (own : breaks key = 0) (given : breaks value = 0) :
    Unbroken [(key, value)] := by
  intro e member
  cases List.mem_singleton.mp member
  exact ⟨own, given⟩

theorem argsUnbroken {args : List Argument} (raw : ∀ a ∈ args, breaks a.text = 0) :
    Unbroken (argAttributes args) := by
  intro e member
  obtain ⟨⟨a, i⟩, place, rfl⟩ := List.mem_map.mp member
  have key : breaks ("arg" ++ toString i) = 0 := by
    rw [breaksAppend, breaksNumber]
    rfl
  exact ⟨key, raw a (List.fst_mem_of_mem_zipIdx place)⟩

theorem tagUnbroken {tag : StartTag}
    (raw : ∀ text ∈ rawTexts (.startTag tag), breaks text = 0) :
    Unbroken tag.snapshotAttributes := by
  have each (a) (member : a ∈ tag.attributes) (text) (own : text ∈ a.name :: a.value?.toList) :
      breaks text = 0 := raw text (List.mem_flatMap.mpr ⟨a, member, own⟩)
  intro e member
  rcases List.mem_append.mp member with shown | closing
  · obtain ⟨a, inside, rfl⟩ := List.mem_map.mp shown
    have key : breaks ("attr." ++ a.name) = 0 := by
      rw [breaksAppend, each a inside a.name List.mem_cons_self]
      rfl
    refine ⟨key, ?_⟩
    cases given : a.value? with
    | none => rfl
    | some value => exact each a inside value (by simp [given])
  · split at closing
    · cases List.mem_singleton.mp closing
      exact ⟨rfl, rfl⟩
    · cases closing

theorem formUnbroken {form : Form} {base : BlockCommand Comment}
    (raw : ∀ text ∈ rawTexts (.command form base), breaks text = 0) :
    Unbroken (form.snapshotAttributes base) := by
  obtain ⟨args, own⟩ := List.forall_mem_append.mp raw
  have name {first rest} (same : base.args = first :: rest) : Unbroken [("name", first.text)] :=
    entryUnbroken rfl (args _ (by simp [same]))
  cases form with
  | block => exact nofun
  | param index =>
    have flags : Unbroken [("direction", base.direction.display),
        ("explicit", Record.truth base.isDirectionExplicit)] := by
      cases base.direction <;> cases base.isDirectionExplicit <;> decide
    have place : Unbroken (index.toList.map fun i => ("index", toString i)) := by
      cases index with
      | none => exact nofun
      | some i => exact entryUnbroken rfl (breaksNumber i)
    refine List.forall_mem_append.mpr ⟨List.forall_mem_append.mpr ⟨flags, ?_⟩, place⟩
    split
    · exact nofun
    · exact name ‹_›
  | tparam position =>
    refine List.forall_mem_append.mpr ⟨?_, ?_⟩ <;> split
    · exact nofun
    · exact name ‹_›
    · exact nofun
    · refine entryUnbroken rfl ?_
      rw [breaksBetween rfl, List.map_map]
      exact List.sum_eq_zero_iff_forall_eq_nat.mpr (List.forall_mem_map.mpr fun i _ =>
        breaksNumber i)
  | verbatimBlock closeName closeLoc lines => exact entryUnbroken rfl (own _ List.mem_cons_self)
  | verbatimLine start content => exact entryUnbroken rfl (own _ List.mem_cons_self)

theorem nodeUnbroken {t : CommandTable} {c : Comment} {own : Snapshot}
    (taken : c.snapshotNode t = .ok own) (raw : ∀ text ∈ c.rawTexts, breaks text = 0) :
    Unbroken own.attributes := by
  have put {type label : String} {entries} (each : Unbroken entries) :
      Unbroken ((Snapshot.leaf type label).withAttributes entries).attributes := by
    intro e member
    rw [Snapshot.withAttributesAll] at member
    rcases putAllMember member with before | given
    · cases before
    · exact each e given
  cases c with
  | inlineCommand node =>
    cases taken
    have style : breaks node.style.name = 0 := by cases node.style <;> rfl
    exact put (List.forall_mem_append.mpr ⟨entryUnbroken rfl style, argsUnbroken fun a member =>
      raw _ (List.mem_map_of_mem member)⟩)
  | startTag node =>
    cases taken
    exact put (tagUnbroken raw)
  | paragraph node =>
    obtain ⟨⟨blank, _⟩, _, same⟩ := bindOk.mp taken
    cases same
    have flag : Unbroken [("whitespace", Record.truth blank)] := by cases blank <;> decide
    exact put flag
  | command form base =>
    cases taken
    exact put (List.forall_mem_append.mpr ⟨formUnbroken raw, argsUnbroken fun a member =>
      raw _ (List.mem_append_left _ (List.mem_map_of_mem member))⟩)
  | _ =>
    cases taken
    exact nofun

theorem attributesUnbroken {t : CommandTable} {c : Comment} {s : Snapshot}
    (taken : c.snapshot t = .ok s) (raw : ∀ text ∈ c.rawTexts, breaks text = 0) :
    s.attributeBreaks = 0 := by
  obtain ⟨own, inside, node, rfl, _⟩ := snapshotInside taken
  have each := nodeUnbroken node raw
  cases own
  exact Snapshot.attributesUnbroken.mpr each

end Comment

namespace FullComment
open Snapshot

/-- One line for each listed node, with its type behind two blanks for each level. Behind the last
line there is nothing, but it counts as a piece. -/
structure LinePerNode (listed : List (String × Nat)) (text : String) : Prop where
  pieces : (text.toList.splitOn '\n').length = listed.length + 1
  starts {k : Nat} {type : String} {depth : Nat} (node : listed[k]? = some (type, depth)) :
    ∃ rest, (text.toList.splitOn '\n')[k]? =
      some (List.replicate (2 * depth) ' ' ++ type.toList ++ rest)

structure Outlined (f : FullComment) (s : Snapshot) : Prop where
  closed : ∃ text, s.outline = text ++ "\n"
  nodes : ∃ rest : Nat × Snapshot → List Char, s.outline.toList = (s.nodesAt 0).flatMap fun e =>
    List.replicate (2 * e.1) ' ' ++ e.2.type.toList ++ rest e ++ ['\n']
  count : breaks s.outline =
    f.listed.length + ((s.nodesAt 0).map fun e => e.2.attributeBreaks).sum
  lined : LinePerNode f.listed s.outline ↔ ∀ e ∈ s.nodesAt 0, e.2.attributeBreaks = 0
  raw : (∀ i path c, f.at? (i :: path) = some c → ∀ text ∈ c.rawTexts, breaks text = 0) →
    LinePerNode f.listed s.outline

variable {t : CommandTable} {f : FullComment} {s : Snapshot}

theorem listedUnbroken {entry : String × Nat} (member : entry ∈ f.listed) :
    breaks entry.1 = 0 := by
  rcases List.mem_cons.mp member with rfl | below
  · exact Kind.nameUnbroken _
  · obtain ⟨e, _, rfl⟩ := List.mem_map.mp below
    exact Kind.nameUnbroken _

theorem typesUnbroken (mirrors : Mirrors t f s) {e : Nat × Snapshot} (member : e ∈ s.nodesAt 0) :
    breaks e.2.type = 0 := by
  have listed : (e.2.type, e.1) ∈ f.listed := by
    rw [← mirrors.walk]
    exact List.mem_map_of_mem member
  exact listedUnbroken listed

theorem breaksCounted (mirrors : Mirrors t f s) : breaks s.outline =
    f.listed.length + ((s.nodesAt 0).map fun e => e.2.attributeBreaks).sum := by
  rw [outlineBreaks s fun e => typesUnbroken mirrors, ← mirrors.walk, typesAt, List.length_map]

theorem linesSplit (mirrors : Mirrors t f s)
    (unbroken : ∀ e ∈ s.nodesAt 0, e.2.attributeBreaks = 0) :
    s.outline.toList.splitOn '\n' = (s.nodesAt 0).map (fun e => (line e).toList) ++ [[]] := by
  have each : ∀ l ∈ (s.nodesAt 0).map fun e => (line e).toList, '\n' ∉ l := by
    refine List.forall_mem_map.mpr fun e member => List.count_eq_zero.mp ?_
    rw [← breaks, lineBreaks, typesUnbroken mirrors member, unbroken e member]
  rw [outline, outlineLines, ← splitLines each, List.flatMap_map]

theorem lineStarts (e : Nat × Snapshot) : ∃ rest,
    (line e).toList = List.replicate (2 * e.1) ' ' ++ e.2.type.toList ++ rest := by
  have indent : (String.join (List.replicate e.1 "  ")).toList = List.replicate (2 * e.1) ' ' := by
    have level : "  ".toList = List.replicate 2 ' ' := rfl
    rw [String.toList_join, List.flatMap_replicate, level, Nat.mul_comm]
    exact List.flatten_replicate_replicate
  simp [line, headline, indent]

theorem linePerNode (mirrors : Mirrors t f s) :
    LinePerNode f.listed s.outline ↔ ∀ e ∈ s.nodesAt 0, e.2.attributeBreaks = 0 := by
  constructor
  · intro lined
    have pieces := lined.pieces
    rw [splitCount, ← breaks, breaksCounted mirrors] at pieces
    exact List.forall_mem_map.mp (List.sum_eq_zero_iff_forall_eq_nat.mp (by omega))
  · intro unbroken
    have split := linesSplit mirrors unbroken
    refine ⟨?_, fun {k type depth} node => ?_⟩
    · rw [split, ← mirrors.walk]
      simp [typesAt]
    · rw [← mirrors.walk, typesAt, List.getElem?_map, Option.map_eq_some_iff] at node
      obtain ⟨e, found, same⟩ := node
      cases same
      have inside : k < (s.nodesAt 0).length := (List.getElem?_eq_some_iff.mp found).1
      obtain ⟨rest, starts⟩ := lineStarts e
      refine ⟨rest, ?_⟩
      rw [split, ← starts, List.getElem?_append_left (by simpa using inside), List.getElem?_map,
        found]
      rfl

theorem rawUnbroken (taken : f.snapshot t = .ok s)
    (raw : ∀ i path c, f.at? (i :: path) = some c → ∀ text ∈ c.rawTexts, breaks text = 0)
    {e : Nat × Snapshot} (member : e ∈ s.nodesAt 0) : e.2.attributeBreaks = 0 := by
  obtain ⟨path, found⟩ := nodePath member
  cases path with
  | nil =>
    obtain ⟨_, _, same⟩ := bindOk.mp taken
    cases same
    rw [← Option.some.inj found]
    rfl
  | cons i path =>
    have pictured := picturedAt taken i path
    rw [found] at pictured
    cases here : f.at? (i :: path) with
    | none => rw [here] at pictured; cases pictured
    | some c =>
      rw [here] at pictured
      cases pictured with
      | some own => exact Comment.attributesUnbroken own (raw i path c here)

theorem snapshotOutlined (taken : f.snapshot t = .ok s) : Outlined f s := by
  have mirrors := snapshotMirrors taken
  have perNode := linePerNode mirrors
  have nodes := outlineLines s 0
  choose rest starts using lineStarts
  simp only [starts] at nodes
  exact ⟨outlineClosed s, ⟨rest, nodes⟩, breaksCounted mirrors, perNode,
    fun raw => perNode.mpr fun _ => rawUnbroken taken raw⟩

theorem outlineLinesCounted (t : CommandTable) :
    (∀ m f, Made m (.tree f) → ∃ s, f.snapshot t = .ok s) ∧
    ∀ f s, f.snapshot t = .ok s → Outlined f s :=
  ⟨fun _ _ made => snapshotMade made t, fun _ _ => snapshotOutlined⟩

def tornTag : Draft :=
  .paragraph [.seed (.startTag (.valid 0) "a")
    [.step (.setAttributes
      [⟨.valid 3, "title", .valid 8, ⟨.valid 9, .valid 18⟩, some "one\ntwo"⟩])]] []

theorem valueTearsLine : ∃ c f s, tornTag.build .checked .empty = .ok c ∧
    FullComment.build .checked [c] (.ofDecl (.constant "v" .plain)) = .ok f ∧
    f.snapshot .empty = .ok s ∧
    s.outline = "FullComment \"v\"\n  ParagraphComment \"\" \x7bwhitespace=false\x7d\n" ++
      "    HTMLStartTagComment \"a\" \x7battr.title=one\ntwo\x7d\n" ∧
    breaks s.outline = 4 ∧ f.listed.length = 3 ∧ ¬ LinePerNode f.listed s.outline :=
  ⟨_, _, _, rfl, rfl, rfl, rfl, rfl, rfl, fun lined => absurd lined.pieces (by decide)⟩

end FullComment
end DocTree
