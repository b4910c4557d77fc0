import DocTree.Proofs.Making
import DocTree.Proofs.ResolveFrame
import Mathlib.Data.List.Induction
import Mathlib.Data.List.Nodup
import Mathlib.Data.List.Perm.Subperm
import Std.Data.String.ToNat

/-! The attributes in a snapshot as a map. A key has the value that was written last under it, and
only attributes of a tag with one name share a key: all else of a node is written under keys of its
own. So each of them is there, and arguments, index and position can be read back. -/
namespace DocTree

section

variable {key value : String} {attributes entries : List (String × String)} {e : String × String}

theorem putEither (ascending : Ascending attributes) :
    e ∈ putAttribute key value attributes ↔ e = (key, value) ∨ e.1 ≠ key ∧ e ∈ attributes := by
  induction attributes with
  | nil => simp [putAttribute]
  | cons first rest ih =>
    obtain ⟨above, later⟩ := List.pairwise_cons.mp ascending
    by_cases less : key < first.1
    · have greater : ∀ l ∈ first :: rest, key < l.1 :=
        List.forall_mem_cons.mpr ⟨less, fun l inside => String.lt_trans less (above l inside)⟩
      rw [putFirst greater, List.mem_cons]
      exact or_congr_right ⟨fun held => ⟨(String.ne_of_lt (greater e held)).symm, held⟩, And.right⟩
    · by_cases same : key = first.1
      · subst same
        rw [putSame, List.mem_cons, List.mem_cons]
        refine or_congr_right ⟨fun held => ⟨(String.ne_of_lt (above e held)).symm, .inr held⟩, ?_⟩
        rintro ⟨other, rfl | held⟩
        · exact absurd rfl other
        · exact held
      · rw [putLater less same, List.mem_cons, ih later, List.mem_cons]
        constructor
        · rintro (rfl | own | ⟨other, held⟩)
          · exact .inr ⟨Ne.symm same, .inl rfl⟩
          · exact .inl own
          · exact .inr ⟨other, .inr held⟩
        · rintro (own | ⟨other, rfl | held⟩)
          · exact .inr (.inl own)
          · exact .inl rfl
          · exact .inr (.inr ⟨other, held⟩)

theorem putAllAscending (entries : List (String × String)) (ascending : Ascending attributes) :
    Ascending (putAll attributes entries) := by
  induction entries generalizing attributes with
  | nil => exact ascending
  | cons entry rest ih => exact ih (putAscending ascending)

theorem putAllThen (entries : List (String × String)) (last : String × String) :
    putAll [] (entries ++ [last]) = putAttribute last.1 last.2 (putAll [] entries) := by
  rw [putAll, List.foldl_append]
  rfl

theorem putAllLast (entries : List (String × String)) : e ∈ putAll [] entries ↔
    ∃ before after, entries = before ++ e :: after ∧ ∀ l ∈ after, l.1 ≠ e.1 := by
  -- Only what is put after an entry can replace it, so the induction goes from the end.
  induction entries using List.reverseRecOn with
  | nil => simp [putAll]
  | append_singleton rest last ih =>
    rw [putAllThen, putEither (putAllAscending rest .nil), ih]
    constructor
    · rintro (rfl | ⟨other, before, after, rfl, kept⟩)
      · exact ⟨rest, [], rfl, nofun⟩
      · refine ⟨before, after ++ [last], by simp, fun l member => ?_⟩
        rcases List.mem_append.mp member with inside | inside
        · exact kept l inside
        · rw [List.mem_singleton.mp inside]
          exact Ne.symm other
    · rintro ⟨before, after, same, kept⟩
      rcases List.eq_nil_or_concat after with rfl | ⟨after, l, rfl⟩
      · obtain ⟨rfl, one⟩ := List.append_inj' same rfl
        exact .inl (List.singleton_inj.mp one).symm
      · rw [List.concat_eq_append] at same kept
        rw [← List.cons_append, ← List.append_assoc] at same
        obtain ⟨rfl, one⟩ := List.append_inj' same rfl
        obtain rfl := List.singleton_inj.mp one
        rw [List.forall_mem_append] at kept
        exact .inr ⟨Ne.symm (kept.2 last (List.mem_singleton_self _)), before, after, rfl, kept.1⟩

theorem putAllDistinct (distinct : (entries.map Prod.fst).Nodup) :
    e ∈ putAll [] entries ↔ e ∈ entries := by
  rw [putAllLast]
  constructor
  · rintro ⟨before, after, rfl, _⟩
    exact List.mem_append_right _ List.mem_cons_self
  · intro member
    obtain ⟨before, after, rfl⟩ := List.append_of_mem member
    rw [List.map_append, List.map_cons] at distinct
    have own := (List.nodup_cons.mp (List.nodup_append.mp distinct).2.1).1
    exact ⟨before, after, rfl, fun l later same => own (List.mem_map.mpr ⟨l, later, same⟩)⟩

theorem lookupMember (ascending : Ascending attributes) :
    attributes.lookup key = some value ↔ (key, value) ∈ attributes := by
  rw [List.lookup_eq_some_iff]
  constructor
  · rintro ⟨before, after, rfl, _⟩
    exact List.mem_append_right _ List.mem_cons_self
  · intro member
    obtain ⟨before, after, rfl⟩ := List.append_of_mem member
    refine ⟨before, after, rfl, fun l inside => bne_iff_ne.mpr ?_⟩
    exact (String.ne_of_lt ((List.pairwise_append.mp ascending).2.2 l inside _
      List.mem_cons_self)).symm

end

def argKey (i : Nat) : String := "arg" ++ toString i

theorem argKeyInjective : Function.Injective argKey := fun _ _ same =>
  Nat.repr_injective ((String.append_right_inj _).mp same)

def ownKeys : List String :=
  ["render", "direction", "explicit", "name", "index", "position", "close", "text"]

theorem ownKeyOther {key : String} (own : key ∈ ownKeys) (i : Nat) : key ≠ argKey i := by
  rintro rfl
  have first : (argKey i).toList.head? = some 'a' := by simp [argKey]
  have others : ∀ key ∈ ownKeys, key.toList.head? ≠ some 'a' := by decide
  exact others _ own first

theorem argMember {args : List Argument} {key value : String} :
    (key, value) ∈ argAttributes args ↔
      ∃ i a, args[i]? = some a ∧ key = argKey i ∧ value = a.text := by
  unfold argAttributes
  rw [List.mem_map]
  constructor
  · rintro ⟨⟨a, i⟩, place, same⟩
    cases same
    exact ⟨i, a, List.mem_zipIdx_iff_getElem?.mp place, rfl, rfl⟩
  · rintro ⟨i, a, held, rfl, rfl⟩
    exact ⟨(a, i), List.mem_zipIdx_iff_getElem?.mpr held, rfl⟩

theorem argKeys (args : List Argument) :
    (argAttributes args).map Prod.fst = (List.range' 0 args.length).map argKey := by
  rw [← List.zipIdx_map_snd, argAttributes, List.map_map, List.map_map]
  rfl

theorem argsDistinct (own : List (String × String)) (args : List Argument)
    (sub : (own.map Prod.fst).Sublist ownKeys) :
    ((own ++ argAttributes args).map Prod.fst).Nodup := by
  have plain : ownKeys.Nodup := by decide
  rw [List.map_append, argKeys, List.nodup_append]
  refine ⟨sub.nodup plain, (List.nodup_range' 1).map argKeyInjective, ?_⟩
  intro key member other listed
  obtain ⟨i, _, rfl⟩ := List.mem_map.mp listed
  exact ownKeyOther (sub.subset member) i

theorem Form.ownKeys (form : Form) (base : BlockCommand Comment) :
    ((form.snapshotAttributes base).map Prod.fst).Sublist DocTree.ownKeys := by
  obtain ⟨h, args, paragraph⟩ := base
  cases form with
  | block => exact List.nil_sublist _
  | param index =>
    cases args <;> cases index
    · exact (by decide : ["direction", "explicit"].Sublist DocTree.ownKeys)
    · exact (by decide : ["direction", "explicit", "index"].Sublist DocTree.ownKeys)
    · exact (by decide : ["direction", "explicit", "name"].Sublist DocTree.ownKeys)
    · exact (by decide : ["direction", "explicit", "name", "index"].Sublist DocTree.ownKeys)
  | tparam position =>
    cases args <;> cases position
    · exact List.nil_sublist _
    · exact (by decide : ["position"].Sublist DocTree.ownKeys)
    · exact (by decide : ["name"].Sublist DocTree.ownKeys)
    · exact (by decide : ["name", "position"].Sublist DocTree.ownKeys)
  | verbatimBlock => exact (by decide : ["close"].Sublist DocTree.ownKeys)
  | verbatimLine => exact (by decide : ["text"].Sublist DocTree.ownKeys)

namespace Comment

inductive Shows : Comment → String → String → Prop where
  | arg {c : Comment} {args i} {a : Argument} (held : c.args? = some args)
      (here : args[i]? = some a) : Shows c (argKey i) a.text
  | render (node) : Shows (.inlineCommand node) "render" node.style.name
  | direction (index base) :
      Shows (.command (.param index) base) "direction" base.direction.display
  | explicit (index base) : Shows (.command (.param index) base) "explicit"
      (if base.isDirectionExplicit then "true" else "false")
  | paramName (index) {base : BlockCommand Comment} {a} (first : base.args.head? = some a) :
      Shows (.command (.param index) base) "name" a.text
  | index (i base) : Shows (.command (.param (some i)) base) "index" (toString i)
  | tparamName (position) {base : BlockCommand Comment} {a} (first : base.args.head? = some a) :
      Shows (.command (.tparam position) base) "name" a.text
  | position {position} (base) (bound : position ≠ []) :
      Shows (.command (.tparam position) base) "position"
        (String.intercalate "," (position.map toString))
  | close (name loc lines base) :
      Shows (.command (.verbatimBlock name loc lines) base) "close" name
  | line (start content base) : Shows (.command (.verbatimLine start content) base) "text" content
  | lastValue {tag : StartTag} {before a after} (listed : tag.attributes = before ++ a :: after)
      (last : ∀ b ∈ after, b.name ≠ a.name) :
      Shows (.startTag tag) ("attr." ++ a.name) (a.value?.getD "")
  | selfClosing {tag : StartTag} (closed : tag.isSelfClosing = true) :
      Shows (.startTag tag) "self_closing" "true"
  | whitespace {p blank after} (read : Paragraph.readBlank p = .ok (blank, after)) :
      Shows (.paragraph p) "whitespace" (if blank then "true" else "false")

variable {key value : String}

theorem inlineShows (node : InlineCommand) :
    (key, value) ∈ putAll [] (("render", node.style.name) :: argAttributes node.args) ↔
      Shows (.inlineCommand node) key value := by
  have own : ["render"].Sublist ownKeys := by decide
  have distinct := argsDistinct [("render", node.style.name)] node.args own
  rw [← List.singleton_append, putAllDistinct distinct, List.mem_append, List.mem_singleton,
    argMember]
  constructor
  · rintro (same | ⟨i, a, here, rfl, rfl⟩)
    · cases same
      exact .render node
    · exact .arg rfl here
  · intro shown
    cases shown with
    | arg held here =>
      cases held
      exact .inr ⟨_, _, here, rfl, rfl⟩
    | render => exact .inl rfl

theorem paramMember {index : Option Nat} {base : BlockCommand Comment} :
    (key, value) ∈ (Form.param index).snapshotAttributes base ↔
      key = "direction" ∧ value = base.direction.display ∨
      key = "explicit" ∧ value = (if base.isDirectionExplicit then "true" else "false") ∨
      (∃ a, base.args.head? = some a ∧ key = "name" ∧ value = a.text) ∨
      ∃ i, index = some i ∧ key = "index" ∧ value = toString i := by
  obtain ⟨h, args, paragraph⟩ := base
  cases args <;>
    simp [Form.snapshotAttributes, Record.truth, @eq_comm _ "index" key, @eq_comm _ _ value]

theorem tparamMember {position : List Nat} {base : BlockCommand Comment} :
    (key, value) ∈ (Form.tparam position).snapshotAttributes base ↔
      (∃ a, base.args.head? = some a ∧ key = "name" ∧ value = a.text) ∨
      position ≠ [] ∧ key = "position" ∧
        value = String.intercalate "," (position.map fun i => toString i) := by
  obtain ⟨h, args, paragraph⟩ := base
  cases args <;> simp [Form.snapshotAttributes]

theorem formShows {form : Form} {base : BlockCommand Comment}
    (own : (key, value) ∈ form.snapshotAttributes base) :
    Shows (.command form base) key value := by
  cases form with
  | block => cases own
  | param index =>
    rcases paramMember.mp own with
      ⟨rfl, rfl⟩ | ⟨rfl, rfl⟩ | ⟨a, first, rfl, rfl⟩ | ⟨i, rfl, rfl, rfl⟩
    · exact .direction ..
    · exact .explicit ..
    · exact .paramName _ first
    · exact .index ..
  | tparam position =>
    rcases tparamMember.mp own with ⟨a, first, rfl, rfl⟩ | ⟨bound, rfl, rfl⟩
    · exact .tparamName _ first
    · exact .position _ bound
  | verbatimBlock =>
    cases List.mem_singleton.mp own
    exact .close ..
  | verbatimLine =>
    cases List.mem_singleton.mp own
    exact .line ..

theorem commandShows (form : Form) (base : BlockCommand Comment) :
    (key, value) ∈ putAll [] (form.snapshotAttributes base ++ argAttributes base.args) ↔
      Shows (.command form base) key value := by
  rw [putAllDistinct (argsDistinct _ base.args (form.ownKeys base)), List.mem_append, argMember]
  constructor
  · rintro (own | ⟨i, a, here, rfl, rfl⟩)
    · exact formShows own
    · exact .arg rfl here
  · intro shown
    cases shown with
    | arg held here =>
      cases held
      exact .inr ⟨_, _, here, rfl, rfl⟩
    | direction => exact .inl (paramMember.mpr (.inl ⟨rfl, rfl⟩))
    | explicit => exact .inl (paramMember.mpr (.inr (.inl ⟨rfl, rfl⟩)))
    | paramName index first =>
      exact .inl (paramMember.mpr (.inr (.inr (.inl ⟨_, first, rfl, rfl⟩))))
    | index => exact .inl (paramMember.mpr (.inr (.inr (.inr ⟨_, rfl, rfl, rfl⟩))))
    | tparamName position first => exact .inl (tparamMember.mpr (.inl ⟨_, first, rfl, rfl⟩))
    | position base bound => exact .inl (tparamMember.mpr (.inr ⟨bound, rfl, rfl⟩))
    | close | line => exact .inl List.mem_cons_self

theorem valuesShown (attributes : List Attribute) :
    (key, value) ∈ putAll [] (attributes.map fun a => ("attr." ++ a.name, a.value?.getD "")) ↔
      ∃ before a after, attributes = before ++ a :: after ∧ (∀ b ∈ after, b.name ≠ a.name) ∧
        key = "attr." ++ a.name ∧ value = a.value?.getD "" := by
  rw [putAllLast]
  constructor
  · rintro ⟨before, after, same, kept⟩
    obtain ⟨first, rest, split, rfl, tail⟩ := List.map_eq_append_iff.mp same
    obtain ⟨a, later, rfl, own, rfl⟩ := List.map_eq_cons_iff.mp tail
    cases own
    refine ⟨first, a, later, split, fun b member again => ?_, rfl, rfl⟩
    exact kept _ (List.mem_map_of_mem member) (congrArg ("attr." ++ ·) again)
  · rintro ⟨before, a, after, split, last, rfl, rfl⟩
    refine ⟨before.map _, after.map _, by rw [split, List.map_append, List.map_cons], ?_⟩
    intro l member again
    obtain ⟨b, inside, rfl⟩ := List.mem_map.mp member
    exact last b inside ((String.append_right_inj _).mp again)

theorem tagShows (tag : StartTag) :
    (key, value) ∈ putAll [] tag.snapshotAttributes ↔ Shows (.startTag tag) key value := by
  have other (name : String) : "attr." ++ name ≠ "self_closing" := by
    intro same
    have first := congrArg (·.toList.head?) same
    simp at first
  unfold StartTag.snapshotAttributes
  split
  · rename_i closed
    rw [putAllThen, putEither (putAllAscending _ .nil), valuesShown]
    constructor
    · rintro (same | ⟨_, before, a, after, split, last, rfl, rfl⟩)
      · cases same
        exact .selfClosing closed
      · exact .lastValue split last
    · intro shown
      cases shown with
      | arg held => cases held
      | lastValue split last => exact .inr ⟨other _, _, _, _, split, last, rfl, rfl⟩
      | selfClosing => exact .inl rfl
  · rename_i opened
    rw [List.append_nil, valuesShown]
    constructor
    · rintro ⟨before, a, after, split, last, rfl, rfl⟩
      exact .lastValue split last
    · intro shown
      cases shown with
      | arg held => cases held
      | lastValue split last => exact ⟨_, _, _, split, last, rfl, rfl⟩
      | selfClosing closed => exact absurd closed opened

structure Listed (c : Comment) (attributes : List (String × String)) : Prop where
  once : Ascending attributes
  shown (key value : String) : (key, value) ∈ attributes ↔ c.Shows key value

theorem nodeListed {t : CommandTable} {c : Comment} {s : Snapshot}
    (taken : c.snapshotNode t = .ok s) : Listed c s.attributes := by
  have none (c : Comment) (plain : ∀ key value, ¬ c.Shows key value) (key value) :
      (key, value) ∈ ([] : List (String × String)) ↔ c.Shows key value :=
    iff_of_false List.not_mem_nil (plain key value)
  cases c with
  | text node | endTag node | verbatimBlockLine node =>
    cases taken
    exact ⟨.nil, none _ fun key value shown => by cases shown with | arg held => cases held⟩
  | inlineCommand node =>
    cases taken
    rw [Snapshot.withAttributesAll]
    exact ⟨putAllAscending _ .nil, fun _ _ => inlineShows node⟩
  | startTag tag =>
    cases taken
    rw [Snapshot.withAttributesAll]
    exact ⟨putAllAscending _ .nil, fun _ _ => tagShows tag⟩
  | command form base =>
    cases taken
    rw [Snapshot.withAttributesAll]
    exact ⟨putAllAscending _ .nil, fun _ _ => commandShows form base⟩
  | paragraph p =>
    obtain ⟨⟨blank, after⟩, read, same⟩ := bindOk.mp taken
    cases same
    refine ⟨putAscending .nil, fun key value => List.mem_singleton.trans ⟨?_, ?_⟩⟩
    · rintro ⟨⟩
      exact .whitespace read
    · intro shown
      cases shown with
      | arg held => cases held
      | whitespace again =>
        cases read.symm.trans again
        rfl

end Comment

namespace Snapshot

/-- The arguments in their order, though "arg10" stands before "arg2" among the keys. -/
def shownArgs (attributes : List (String × String)) : List String :=
  (List.range attributes.length).filterMap fun i => attributes.lookup (argKey i)

def shownIndex (attributes : List (String × String)) : Option Nat :=
  (attributes.lookup "index").bind String.toNat?

def shownPosition (attributes : List (String × String)) : List Nat :=
  match attributes.lookup "position" with
  | none => []
  | some path => (path.toList.splitOn ',').filterMap fun digits => (String.ofList digits).toNat?

end Snapshot

theorem placesRead {α : Type} (l : List α) {n : Nat} (room : l.length ≤ n) :
    (List.range n).filterMap (l[·]?) = l := by
  induction l generalizing n with
  | nil => simp
  | cons first rest ih =>
    cases n with
    | zero => cases room
    | succ n =>
      rw [List.range_succ_eq_map, List.filterMap_cons, List.filterMap_map]
      exact congrArg (first :: ·) (ih (Nat.le_of_succ_le_succ room))

theorem pathRead {position : List Nat} (bound : position ≠ []) :
    ((String.intercalate "," (position.map toString)).toList.splitOn ',').filterMap
      (fun digits => (String.ofList digits).toNat?) = position := by
  have plain : ∀ l ∈ (position.map toString).map String.toList, ',' ∉ l := by
    simp only [List.mem_map]
    rintro l ⟨_, ⟨i, _, rfl⟩, rfl⟩ member
    rw [Nat.toString_eq_repr, Nat.toList_repr] at member
    exact absurd (Nat.isDigit_of_mem_toDigits (by decide) (by decide) member) (by decide)
  have digits (i : Nat) : (String.ofList (toString i).toList).toNat? = some i := by
    rw [String.ofList_toList]
    exact Nat.toNat?_repr i
  rw [String.toList_intercalate]
  show List.filterMap _ (List.splitOn ',' (List.intercalate [','] _)) = _
  rw [List.splitOn_intercalate ',' plain (by simpa using bound), List.map_map,
    List.filterMap_map]
  exact (List.filterMap_congr fun i _ => digits i).trans List.filterMap_some

namespace Comment

variable {c : Comment} {attributes : List (String × String)} {key value : String}

theorem argShown {args : List Argument} (held : c.args? = some args) (shown : c.Shows key value)
    {i : Nat} (here : key = argKey i) : (args.map Argument.text)[i]? = some value := by
  cases shown with
  | arg own place =>
    cases own.symm.trans held
    rw [← argKeyInjective here, List.getElem?_map, place]
    rfl
  | lastValue | selfClosing | whitespace => cases held
  | _ => exact absurd here (ownKeyOther (by decide) i)

theorem indexShown {index : Option Nat} {base : BlockCommand Comment}
    (shown : Shows (.command (.param index) base) key value) (here : key = "index") :
    index.map toString = some value := by
  cases shown with
  | arg => exact absurd here.symm (ownKeyOther (by decide) _)
  | index => rfl
  | _ => exact absurd here (by decide)

theorem positionShown {position : List Nat} {base : BlockCommand Comment}
    (shown : Shows (.command (.tparam position) base) key value) (here : key = "position") :
    position ≠ [] ∧ String.intercalate "," (position.map toString) = value := by
  cases shown with
  | arg => exact absurd here.symm (ownKeyOther (by decide) _)
  | position _ bound => exact ⟨bound, rfl⟩
  | _ => exact absurd here (by decide)

theorem lastListed {name : String} {attributes : List Attribute}
    (listed : name ∈ attributes.map Attribute.name) : ∃ before b after,
      attributes = before ++ b :: after ∧ b.name = name ∧ ∀ c ∈ after, c.name ≠ b.name := by
  induction attributes with
  | nil => cases listed
  | cons first rest ih =>
    by_cases again : name ∈ rest.map Attribute.name
    · obtain ⟨before, b, after, rfl, own, last⟩ := ih again
      exact ⟨first :: before, b, after, rfl, own, last⟩
    · rcases List.mem_cons.mp listed with rfl | later
      · exact ⟨[], first, rest, rfl, rfl, fun c inside same =>
          again (same ▸ List.mem_map_of_mem inside)⟩
      · exact absurd later again

theorem lookupShown (listed : Listed c attributes) :
    attributes.lookup key = some value ↔ c.Shows key value :=
  (lookupMember listed.once).trans (listed.shown key value)

theorem argsRead (listed : Listed c attributes) {args : List Argument}
    (held : c.args? = some args) : Snapshot.shownArgs attributes = args.map Argument.text := by
  have looked (i : Nat) : attributes.lookup (argKey i) = (args.map Argument.text)[i]? := by
    refine Option.ext fun value => (lookupShown listed).trans ?_
    refine ⟨fun arg => argShown held arg rfl, fun place => ?_⟩
    rw [List.getElem?_map] at place
    obtain ⟨a, here, rfl⟩ := Option.map_eq_some_iff.mp place
    exact .arg held here
  have there : argAttributes args ⊆ attributes := by
    rintro ⟨key, value⟩ member
    obtain ⟨i, a, here, rfl, rfl⟩ := argMember.mp member
    exact (listed.shown _ _).mpr (.arg held here)
  have distinct := List.Nodup.of_map Prod.fst (argsDistinct [] args (List.nil_sublist _))
  have room : (args.map Argument.text).length ≤ attributes.length := by
    simpa [argAttributes] using (distinct.subperm there).length_le
  unfold Snapshot.shownArgs
  simp only [looked]
  exact placesRead _ room

theorem indexRead {index : Option Nat} {base : BlockCommand Comment}
    (listed : Listed (.command (.param index) base) attributes) :
    Snapshot.shownIndex attributes = index := by
  have looked : attributes.lookup "index" = index.map toString := by
    refine Option.ext fun value => (lookupShown listed).trans ?_
    refine ⟨fun own => indexShown own rfl, fun own => ?_⟩
    obtain ⟨i, rfl, rfl⟩ := Option.map_eq_some_iff.mp own
    exact .index i base
  rw [Snapshot.shownIndex, looked]
  cases index with
  | none => rfl
  | some i => exact Nat.toNat?_repr i

theorem positionRead {position : List Nat} {base : BlockCommand Comment}
    (listed : Listed (.command (.tparam position) base) attributes) :
    Snapshot.shownPosition attributes = position := by
  unfold Snapshot.shownPosition
  split
  · rename_i absent
    by_contra bound
    have there := (lookupShown listed).mpr (.position base (Ne.symm bound))
    cases absent.symm.trans there
  · rename_i path there
    obtain ⟨bound, rfl⟩ := positionShown ((lookupShown listed).mp there) rfl
    exact pathRead bound

structure Mapped (c : Comment) (attributes : List (String × String)) : Prop
    extends Listed c attributes where
  args {args} (held : c.args? = some args) :
    Snapshot.shownArgs attributes = args.map Argument.text
  index {index base} (param : c = .command (.param index) base) :
    Snapshot.shownIndex attributes = index
  position {position base} (tparam : c = .command (.tparam position) base) :
    Snapshot.shownPosition attributes = position
  named {tag : StartTag} (start : c = .startTag tag) :
    ∀ name ∈ tag.attributes.map Attribute.name, ∃ value, ("attr." ++ name, value) ∈ attributes

theorem nodeMapped (listed : Listed c attributes) : Mapped c attributes where
  toListed := listed
  args := argsRead listed
  index param := by
    subst param
    exact indexRead listed
  position tparam := by
    subst tparam
    exact positionRead listed
  named {tag} start name given := by
    subst start
    obtain ⟨before, b, after, split, rfl, last⟩ := lastListed given
    exact ⟨_, (listed.shown _ _).mpr (.lastValue split last)⟩

theorem attributesExact (t : CommandTable) :
    (∀ m c, Standing m c → ∃ s, c.snapshot t = .ok s) ∧
    ∀ c s, c.snapshot t = .ok s → Mapped c s.attributes := by
  refine ⟨fun m c stands => snapshotHolds t c (standingCached stands), fun c s taken => ?_⟩
  obtain ⟨own, inside, node, rfl, _⟩ := snapshotInside taken
  have listed := nodeListed node
  cases own
  exact nodeMapped listed

def crowded : Comment :=
  .command (.tparam [2, 10]) ((BlockCommand.ofKind .tparamCommand (.valid 0) (.valid 7) 12).setArgs
    (["a", "b", "c", "d", "e", "f", "g", "h", "i", "j", "k"].map fun text => ⟨.unset, text⟩))

def repeated : StartTag :=
  ((StartTag.make (.valid 0) "p").setAttributes
    [⟨.valid 3, "x", .valid 4, .unset, some "1"⟩, .bare (.valid 6) "y",
      ⟨.valid 8, "x", .valid 9, .unset, some "2"⟩]).setSelfClosing

theorem crowdedMapped : Standing .checked crowded ∧ Standing .checked (.startTag repeated) ∧
    (∃ s, crowded.snapshot .empty = .ok s ∧ Mapped crowded s.attributes ∧
      Snapshot.shownArgs s.attributes = ["a", "b", "c", "d", "e", "f", "g", "h", "i", "j", "k"] ∧
      Snapshot.shownPosition s.attributes = [2, 10]) ∧
    ∃ s, snapshot .empty (.startTag repeated) = .ok s ∧ Mapped (.startTag repeated) s.attributes ∧
      s.attributes = [("attr.x", "2"), ("attr.y", ""), ("self_closing", "true")] := by
  have tparam : Made .checked (.node (.tparam (.valid 0) (.valid 7) 12)) :=
    @Made.seed _ .empty _ (.tparam (.valid 0) (.valid 7) (.id 12)) rfl
  have tag : Made .checked (.node (.startTag (.make (.valid 0) "p"))) :=
    @Made.seed _ .empty _ (.startTag (.valid 0) "p") rfl
  have many : Standing .checked crowded := madeStanding (.use (.use tparam .empty
    (.act (.setArgs _))) .empty (.act (.setPosition [2, 10])))
  have again : Standing .checked (.startTag repeated) := madeStanding (.use (.use tag .empty
    (.act (.setAttributes _))) .empty (.act .setSelfClosing))
  obtain ⟨s, taken⟩ := (attributesExact .empty).1 _ _ many
  have mapped := (attributesExact .empty).2 _ s taken
  have values := (attributesExact .empty).2 (.startTag repeated) _ rfl
  exact ⟨many, again, ⟨s, taken, mapped, mapped.args rfl, mapped.position rfl⟩,
    _, rfl, values, by decide⟩

end Comment

end DocTree
