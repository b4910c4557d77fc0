import DocTree.Json.Pretty
import DocTree.Json.Reader
import Mathlib.Data.List.Forall2

/-! JSON text read back. What is written of a string names its characters one by one, so any text
comes back with any rest behind it. Printed values follow by induction: an item is read up to
the comma or bracket behind it if each item by itself is, and the length of the text is enough
steps. Numbers are left out, as their spelling need not be one. -/
namespace DocTree.Json

inductive Names : TextUnit → Char → Prop where
  | char (c : Char) : Names (.char c) c
  | code (c : Char) (control : c.toNat < 32) : Names (.code c.toNat) c

def Gives (written : List Char) (unit : TextUnit) : Prop :=
  ∀ rest, readUnits (written ++ rest) =
    (readUnits rest).map fun (units, after) => (unit :: units, after)

theorem givesShort {e c : Char} (escape : escaped? e = some c) : Gives ['\\', e] (.char c) := by
  intro rest
  have named : e ≠ 'u' := by
    rintro rfl
    cases escape
  show readUnits ('\\' :: e :: rest) = _
  rw [readUnits, escape]
  · cases readUnits rest <;> rfl
  · rintro _ _ _ _ _ rfl
    exact absurd rfl named

theorem givesCode {a b c d : Char} {n : Nat} (code : hexCode? a b c d = some n) :
    Gives ['\\', 'u', a, b, c, d] (.code n) := by
  intro rest
  show readUnits ('\\' :: 'u' :: a :: b :: c :: d :: rest) = _
  rw [readUnits, code]
  cases readUnits rest <;> rfl

theorem givesPlain {c : Char} (quote : c ≠ '"') (backslash : c ≠ '\\') (visible : ¬ c.toNat < 32) :
    Gives [c] (.char c) := by
  intro rest
  show readUnits (c :: rest) = _
  rw [readUnits, if_neg (not_or.mpr ⟨visible, backslash⟩)]
  · cases readUnits rest <;> rfl
  · exact fun same => quote same
  · exact fun _ _ _ _ _ same => absurd same backslash
  · exact fun _ _ same => absurd same backslash

theorem hexCodes : ∀ n < 32,
    hexCode? '0' '0' (hexDigit (n / 16)) (hexDigit n) = some n := by decide

theorem escapeGives (c : Char) : ∃ unit, Names unit c ∧ Gives (escapeChar c) unit := by
  unfold escapeChar
  split
  · subst c; exact ⟨_, .char _, givesShort rfl⟩
  split
  · subst c; exact ⟨_, .char _, givesShort rfl⟩
  split
  · subst c; exact ⟨_, .char _, givesShort rfl⟩
  split
  · subst c; exact ⟨_, .char _, givesShort rfl⟩
  split
  · subst c; exact ⟨_, .char _, givesShort rfl⟩
  split
  · subst c; exact ⟨_, .char _, givesShort rfl⟩
  split
  · subst c; exact ⟨_, .char _, givesShort rfl⟩
  split
  · rename_i control
    exact ⟨_, .code c control, givesCode (hexCodes c.toNat control)⟩
  · rename_i quote backslash _ _ _ _ _ visible
    exact ⟨_, .char c, givesPlain quote backslash visible⟩

theorem escapedUnits (cs : List Char) : ∃ units, List.Forall₂ Names units cs ∧
    ∀ rest, readUnits (cs.flatMap escapeChar ++ '"' :: rest) = some (units, rest) := by
  induction cs with
  | nil => exact ⟨[], .nil, fun rest => by simp [readUnits]⟩
  | cons c cs ih =>
    obtain ⟨unit, names, gives⟩ := escapeGives c
    obtain ⟨units, named, read⟩ := ih
    refine ⟨unit :: units, .cons names named, fun rest => ?_⟩
    rw [List.flatMap_cons, List.append_assoc, gives, read]
    rfl

theorem joinControl {n : Nat} (control : n < 32) (units : List TextUnit) :
    joinUnits (.code n :: units) = (joinUnits units).map (Char.ofNat n :: ·) := by
  have high : isHighHalf n = false := by simp [isHighHalf]; omega
  have low : isLowHalf n = false := by simp [isLowHalf]; omega
  cases units with
  | nil => simp [joinUnits, high, low]
  | cons unit rest => cases unit <;> simp [joinUnits, high, low]

theorem joinNamed {units : List TextUnit} {cs : List Char} (named : List.Forall₂ Names units cs) :
    joinUnits units = some cs := by
  induction named with
  | nil => rfl
  | cons names named ih =>
    cases names with
    | char c => rw [joinUnits, ih]; rfl
    | code c control => rw [joinControl control, ih, Char.ofNat_toNat]; rfl

theorem readWritten (s : String) (rest : List Char) :
    readText (s.toList.flatMap escapeChar ++ '"' :: rest) = some (some s, rest) := by
  obtain ⟨units, named, read⟩ := escapedUnits s.toList
  rw [readText, read]
  show some ((joinUnits units).map String.ofList, rest) = _
  rw [joinNamed named, Option.map_some, String.ofList_toList]

theorem skipNothing {c : Char} (visible : isSpace c = false) (cs : List Char) :
    skipSpace (c :: cs) = c :: cs := by
  rw [skipSpace, List.dropWhile_cons_of_neg (by simp [visible])]

theorem skipNewline (level : Nat) (cs : List Char) :
    skipSpace (newline level ++ cs) = skipSpace cs := by
  have blank (n : Nat) : skipSpace (List.replicate n ' ' ++ cs) = skipSpace cs := by
    induction n with
    | zero => rfl
    | succ n ih => rw [List.replicate_succ]; exact ih
  exact blank (2 * level)

theorem readSkips {steps : Nat} {cs ds : List Char} (same : skipSpace cs = skipSpace ds) :
    readValue steps cs = readValue steps ds := by
  cases steps with
  | zero => rfl
  | succ steps => rw [readValue, readValue, same]

theorem itemsSkip (steps level : Nat) (cs : List Char) :
    readItems steps (newline level ++ cs) = readItems steps cs := by
  cases steps with
  | zero => rfl
  | succ steps => rw [readItems, readItems, readSkips (skipNewline level cs)]

theorem membersSkip (steps level : Nat) (cs : List Char) :
    readMembers steps (newline level ++ cs) = readMembers steps cs := by
  cases steps with
  | zero => rfl
  | succ steps => rw [readMembers, readMembers, skipNewline]

theorem readArray {c : Char} (visible : isSpace c = false) (more : c ≠ ']') (steps level : Nat)
    (cs : List Char) : readValue (steps + 1) ('[' :: (newline level ++ c :: cs)) = do
      let (items, after) ← readItems steps (c :: cs)
      return (.array items, after) := by
  rw [readValue, skipNothing (by decide)]
  simp only [skipNewline, skipNothing visible]
  split
  · rename_i same
    exact absurd (List.cons.inj same).1 more
  · rfl

theorem readObject (steps level : Nat) (cs : List Char) :
    readValue (steps + 1) ('\x7b' :: (newline level ++ '"' :: cs)) = do
      let (members, after) ← readMembers steps ('"' :: cs)
      return (.object members, after) := by
  rw [readValue, skipNothing (by decide)]
  simp only [skipNewline, skipNothing (by decide : isSpace '"' = false)]
  rfl

inductive Textual : Json → Prop where
  | text (s : String) : Textual (.text s)
  | array {items : List Json} (all : ∀ item ∈ items, Textual item) : Textual (.array items)
  | object {members : List (JsonText × Json)} (keys : ∀ m ∈ members, ∃ key, m.1 = some key)
      (values : ∀ m ∈ members, Textual m.2) : Textual (.object members)

def Restored (j : Json) : Prop := ∀ level steps rest, (prettyAt level j).length < steps →
  readValue steps (prettyAt level j ++ rest) = some (j, rest)

theorem textualStart {j : Json} (textual : Textual j) (level : Nat) :
    ∃ c cs, prettyAt level j = c :: cs ∧ isSpace c = false ∧ c ≠ ']' := by
  cases textual with
  | text s => exact ⟨_, _, rfl, by decide, by decide⟩
  | @array items =>
    cases items with
    | nil => exact ⟨_, _, rfl, by decide, by decide⟩
    | cons item rest => exact ⟨_, _, by rw [prettyAt]; rfl, by decide, by decide⟩
  | @object members =>
    cases members with
    | nil => exact ⟨_, _, rfl, by decide, by decide⟩
    | cons member rest => exact ⟨_, _, by rw [prettyAt]; rfl, by decide, by decide⟩

theorem writtenText (key : String) (rest : List Char) : writeText (some key) ++ rest =
    '"' :: (key.toList.flatMap escapeChar ++ '"' :: rest) := by simp [writeText, quote]

section

variable {level steps : Nat}

theorem itemsRestored {item : Json} {items : List Json} (each : ∀ j ∈ item :: items, Restored j)
    (enough : (prettyAt level item ++ prettyItems level items).length + 1 < steps) (close : Nat)
    (rest : List Char) : readItems steps (prettyAt level item ++ (prettyItems level items ++
      (newline close ++ ']' :: rest))) = some (item :: items, rest) := by
  induction items generalizing item steps with
  | nil =>
    cases steps with
    | zero => cases enough
    | succ steps =>
      rw [List.length_append] at enough
      have own := each item List.mem_cons_self level steps
      rw [readItems, own _ (by omega)]
      simp [prettyItems, skipNewline, skipNothing (by decide : isSpace ']' = false)]
  | cons next items ih =>
    cases steps with
    | zero => cases enough
    | succ steps =>
      rw [List.forall_mem_cons] at each
      simp only [prettyItems, newline, List.length_append, List.length_cons] at enough
      have later : (prettyAt level next ++ prettyItems level items).length + 1 < steps := by
        rw [List.length_append]
        omega
      rw [readItems, each.1 level steps _ (by omega)]
      simp [prettyItems, skipNothing (by decide : isSpace ',' = false), itemsSkip,
        ih each.2 later]

theorem memberRead {value : Json} (restored : Restored value)
    (enough : (prettyAt level value).length < steps) {key : String} {after : List Char}
    {found : Option (List (JsonText × Json) × List Char)}
    (next : (match skipSpace after with
      | ',' :: rest => do
        let (members, after) ← readMembers steps rest
        return ((some key, value) :: members, after)
      | '\x7d' :: after => return ([(some key, value)], after)
      | _ => none) = found) :
    readMembers (steps + 1)
      (writeText (some key) ++ ':' :: ' ' :: (prettyAt level value ++ after)) = found := by
  have blank (cs : List Char) : readValue steps (' ' :: cs) = readValue steps cs := readSkips rfl
  rw [writtenText, readMembers, skipNothing (by decide)]
  simp only [readWritten, Option.bind_eq_bind, Option.bind_some,
    skipNothing (by decide : isSpace ':' = false), blank, restored level steps after enough]
  exact next

theorem membersRestored {key : String} {value : Json} {members : List (JsonText × Json)}
    (keys : ∀ m ∈ members, ∃ key, m.1 = some key)
    (each : ∀ m ∈ (some key, value) :: members, Restored m.2)
    (enough : (prettyAt level value ++ prettyMembers level members).length + 1 < steps)
    (close : Nat) (rest : List Char) : readMembers steps
      (writeText (some key) ++ ':' :: ' ' :: (prettyAt level value ++
        (prettyMembers level members ++ (newline close ++ '\x7d' :: rest)))) =
      some ((some key, value) :: members, rest) := by
  induction members generalizing key value steps with
  | nil =>
    cases steps with
    | zero => cases enough
    | succ steps =>
      rw [List.length_append] at enough
      refine memberRead (each _ List.mem_cons_self) (by simp only; omega) ?_
      simp [prettyMembers, skipNewline, skipNothing (by decide : isSpace '\x7d' = false)]
  | cons next members ih =>
    cases steps with
    | zero => cases enough
    | succ steps =>
      obtain ⟨nextKey, nextValue⟩ := next
      rw [List.forall_mem_cons] at keys each
      obtain ⟨⟨_, rfl⟩, keys⟩ := keys
      simp only [prettyMembers, newline, List.length_append, List.length_cons] at enough
      have later :
          (prettyAt level nextValue ++ prettyMembers level members).length + 1 < steps := by
        rw [List.length_append]
        omega
      refine memberRead each.1 (by simp only; omega) ?_
      simp [prettyMembers, skipNothing (by decide : isSpace ',' = false), membersSkip,
        ih keys each.2 later]

end

theorem textualRestored {j : Json} (textual : Textual j) : Restored j := by
  induction textual with
  | text s =>
    intro level steps rest enough
    cases steps with
    | zero => cases enough
    | succ steps =>
      rw [text, prettyAt, writtenText, readValue, skipNothing (by decide)]
      simp only [readWritten]
      rfl
  | @array items all ih =>
    intro level steps rest enough
    cases steps with
    | zero => cases enough
    | succ steps =>
      cases items with
      | nil => rfl
      | cons item items =>
        simp only [prettyAt, newline, List.length_append, List.length_cons] at enough
        have inside : (prettyAt (level + 1) item ++ prettyItems (level + 1) items).length + 1 <
            steps := by
          rw [List.length_append]
          omega
        have read := itemsRestored ih inside level rest
        obtain ⟨c, cs, start, visible, more⟩ :=
          textualStart (all item List.mem_cons_self) (level + 1)
        rw [start] at read
        simp only [prettyAt, List.cons_append, List.append_assoc, start]
        rw [readArray visible more]
        simp only [List.cons_append] at read
        simp [read]
  | @object members keys values ih =>
    intro level steps rest enough
    cases steps with
    | zero => cases enough
    | succ steps =>
      cases members with
      | nil => rfl
      | cons member members =>
        obtain ⟨key, value⟩ := member
        rw [List.forall_mem_cons] at keys
        obtain ⟨⟨key, rfl⟩, keys⟩ := keys
        simp only [prettyAt, newline, List.length_append, List.length_cons] at enough
        have inside : (prettyAt (level + 1) value ++ prettyMembers (level + 1) members).length + 1 <
            steps := by
          rw [List.length_append]
          omega
        have read := membersRestored keys ih inside level rest
        rw [writtenText] at read
        simp only [prettyAt, List.cons_append, List.append_assoc, writtenText]
        rw [readObject]
        simp [read]

theorem parsePretty {j : Json} (textual : Textual j) : parse? j.pretty = some j := by
  have whole := textualRestored textual 0 ((prettyAt 0 j).length + 1) [] (Nat.lt_succ_self _)
  rw [List.append_nil] at whole
  simp only [parse?, pretty, String.toList_ofList, whole]
  rfl

end DocTree.Json
