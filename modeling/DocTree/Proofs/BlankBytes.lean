import DocTree.Proofs.BlankReads
import DocTree.Proofs.Lines

/-! Blank paragraphs by the bytes of their text. A character is blank exactly if all its bytes are,
so a paragraph of texts is blank exactly if their bytes one after the other are, wherever one text
ends and the next one begins; and a paragraph with anything else in it never is. -/
namespace DocTree
open LineTable (bytesOf)

def isBlankByte (b : UInt8) : Bool :=
  b == 32 || b == 9 || b == 10 || b == 13 || b == 11 || b == 12

theorem blankByteLow {b : UInt8} (blank : isBlankByte b = true) : b.toNat < 128 := by
  simp only [isBlankByte, Bool.or_eq_true, beq_iff_eq] at blank
  rcases blank with ((((rfl | rfl) | rfl) | rfl) | rfl) | rfl <;> decide

theorem blankCharLow {c : Char} (blank : isBlankChar c = true) : c.val.toNat < 128 := by
  simp only [isBlankChar, Bool.or_eq_true, beq_iff_eq] at blank
  rcases blank with ((((rfl | rfl) | rfl) | rfl) | rfl) | rfl <;> decide

theorem blankEncoded (c : Char) :
    (String.utf8EncodeChar c).all isBlankByte = isBlankChar c := by
  rcases LineTable.encodedBytes c with ⟨low, one⟩ | ⟨high, some, bytes⟩
  · have same (d : Char) (small : d.val.toNat < 128) :
        (c == d) = (c.val.toUInt8 == d.val.toUInt8) := by
      rw [Bool.eq_iff_iff, beq_iff_eq, beq_iff_eq, LineTable.lowSame low small]
    rw [one, List.all_cons, List.all_nil, Bool.and_true, isBlankChar, same ' ' (by decide),
      same '\t' (by decide), same '\n' (by decide), same '\r' (by decide),
      same '\x0b' (by decide), same '\x0c' (by decide)]
    rfl
  · have other : isBlankChar c = false := by
      refine Bool.eq_false_iff.mpr fun blank => ?_
      exact absurd (blankCharLow blank) (Nat.not_lt.mpr high)
    obtain ⟨b, first⟩ := List.exists_mem_of_ne_nil _ some
    rw [other, List.all_eq_false]
    refine ⟨b, first, fun blank => ?_⟩
    exact absurd (blankByteLow blank) (Nat.not_lt.mpr (bytes b first))

theorem blankBytes (text : String) : (bytesOf text).all isBlankByte = isBlank text := by
  rw [LineTable.bytesEncoded, List.all_flatMap]
  simp only [blankEncoded]
  rfl

theorem blankJoin (texts : List String) : isBlank (String.join texts) = texts.all isBlank := by
  rw [isBlank, String.toList_join, List.all_flatMap]
  rfl

namespace Comment

def text? : Comment → Option String
  | .text node => some node.text
  | _ => none

def blankPiece : Option String → Bool
  | some content => isBlank content
  | none => false

theorem blankPieces (content : List Comment) :
    content.all isBlankText = (content.map text?).all blankPiece := by
  rw [List.all_map]
  refine List.all_congr rfl fun c => ?_
  cases c <;> rfl

inductive Regrouped : List (Option String) → List (Option String) → Prop where
  | same (pieces) : Regrouped pieces pieces
  | split (before parts after) :
      Regrouped (before ++ some (String.join parts) :: after) (before ++ parts.map some ++ after)
  | merge (before parts after) :
      Regrouped (before ++ parts.map some ++ after) (before ++ some (String.join parts) :: after)
  | trans {xs ys zs} (first : Regrouped xs ys) (second : Regrouped ys zs) : Regrouped xs zs

theorem regroupedBlank {xs ys : List (Option String)} (h : Regrouped xs ys) :
    ys.all blankPiece = xs.all blankPiece := by
  have parted (parts : List String) :
      (parts.map some).all blankPiece = blankPiece (some (String.join parts)) := by
    rw [blankPiece, blankJoin, List.all_map]
    rfl
  induction h with
  | same pieces => rfl
  | split before parts after | merge before parts after =>
    simp only [List.all_append, List.all_cons, parted, Bool.and_assoc]
  | trans first second left right => exact right.trans left

theorem paragraphText (p : Paragraph Comment) :
    p.text = String.join (p.content.filterMap text?) := by
  unfold Paragraph.text
  congr 2

theorem blankContent (content : List Comment) :
    content.all isBlankText = true ↔ (∀ c ∈ content, ∃ n, c = .text n) ∧
      isBlank (String.join (content.filterMap text?)) = true := by
  rw [blankJoin]
  induction content with
  | nil => simp
  | cons c rest ih =>
    rw [List.all_cons, Bool.and_eq_true, ih, List.forall_mem_cons]
    cases c with
    | text n => simp [isBlankText, text?, and_left_comm]
    | _ => simp [isBlankText]

end Comment

open Comment

def Paragraph.Answers (p : Paragraph Comment) (blank : Bool) : Prop :=
  ∃ q, p.readBlank = .ok (blank, q)

variable {m : Mode} {p : Paragraph Comment}

theorem freshBytes (p : Paragraph Comment) : freshBlank (.paragraph p) = true ↔
    (∀ c ∈ p.content, ∃ n, c = .text n) ∧ ∀ b ∈ bytesOf p.text, isBlankByte b = true := by
  rw [← List.all_eq_true, blankBytes, paragraphText]
  exact blankContent p.content

theorem standingAnswers (standing : Standing m (.paragraph p)) :
    p.Answers (freshBlank (.paragraph p)) := by
  obtain ⟨q, read, _⟩ := paragraphHolds (standingCached standing)
  exact ⟨q, read⟩

theorem holderAnswers {form} {base : BlockCommand Comment} (standing : Standing m (.command form base))
    (held : base.paragraph = some p) :
    ∃ blank after, p.Answers blank ∧ base.readNonBlank = .ok (!blank, after) := by
  obtain ⟨q, read, _⟩ := paragraphHolds (everywhereParagraph (standingCached standing) held)
  refine ⟨_, { base with paragraph := some q }, ⟨q, read⟩, ?_⟩
  unfold BlockCommand.readNonBlank
  rw [held]
  exact bindOk.mpr ⟨_, read, rfl⟩

theorem blankByBytes (m : Mode) :
    (∀ p, Standing m (.paragraph p) → ∃ blank, p.Answers blank ∧
      (blank = true ↔
        (∀ c ∈ p.content, ∃ n, c = .text n) ∧ ∀ b ∈ bytesOf p.text, isBlankByte b = true) ∧
      (p.content = [] → blank = true) ∧
      ∀ q, Standing m (.paragraph q) → Regrouped (p.content.map text?) (q.content.map text?) →
        q.Answers blank) ∧
    ∀ form base p, Standing m (.command form base) → base.paragraph = some p →
      ∃ blank after, p.Answers blank ∧ base.readNonBlank = .ok (!blank, after) := by
  refine ⟨fun p standing => ?_, fun form base p => holderAnswers⟩
  refine ⟨freshBlank (.paragraph p), standingAnswers standing, freshBytes p, ?_, ?_⟩
  · intro empty
    rw [freshBlank, empty]
    rfl
  · intro q other regrouped
    have same : freshBlank (.paragraph q) = freshBlank (.paragraph p) := by
      rw [freshBlank, freshBlank, blankPieces, blankPieces, regroupedBlank regrouped]
    exact same ▸ standingAnswers other

example : isBlank "\t \u00a0" = false := by decide

def textsOf (parts : List String) : Paragraph Comment :=
  .ofContent (parts.map fun part => .text (.make (.valid 0) (.valid 1) part))

theorem textsMade (m : Mode) (parts : List String) : Made m (.node (.paragraph (textsOf parts))) := by
  refine .paragraph (fun c member => ?_) (bindOk.mpr ⟨(), Mode.demandOk.mpr fun _ => ?_, rfl⟩)
  · obtain ⟨part, _, rfl⟩ := List.mem_map.mp member
    exact @Made.seed m .empty _ (.text (.valid 0) (.valid 1) part) rfl
  · rw [List.all_map]
    refine List.all_eq_true.mpr fun part _ => ?_
    have kind : (Comment.text (.make (.valid 0) (.valid 1) part)).kind = .text :=
      Word.kindOfKind .text
    exact congrArg Kind.isInlineContent kind

def textsHolder : BlockCommand Comment :=
  (BlockCommand.ofKind .blockCommand (.valid 0) (.valid 1) 6).setParagraph (textsOf [" ", "", "\t"])

theorem textsBlank :
    Standing .checked (.paragraph (textsOf [" \t"])) ∧
    Standing .checked (.paragraph (textsOf [" ", "", "\t"])) ∧
    Regrouped ((textsOf [" \t"]).content.map text?) ((textsOf [" ", "", "\t"]).content.map text?) ∧
    Standing .checked (.command .block textsHolder) ∧
    (textsOf [" \t"]).Answers true ∧ (textsOf [" ", "", "\t"]).Answers true ∧
    ∃ blank after, (textsOf [" ", "", "\t"]).Answers blank ∧
      textsHolder.readNonBlank = .ok (!blank, after) := by
  have whole := madeStanding (textsMade .checked [" \t"])
  have parted := madeStanding (textsMade .checked [" ", "", "\t"])
  have regrouped : Regrouped ((textsOf [" \t"]).content.map text?)
      ((textsOf [" ", "", "\t"]).content.map text?) := .split [] [" ", "", "\t"] []
  have command : Made .checked (.node (.block (.valid 0) (.valid 1) 6)) :=
    @Made.seed _ .empty _ (.block (.valid 0) (.valid 1) (.id 6)) rfl
  have holder : Standing .checked (.command .block textsHolder) :=
    madeStanding (.attach command (textsMade _ [" ", "", "\t"]) rfl)
  obtain ⟨blank, answer, bytes, _, others⟩ := (blankByBytes .checked).1 _ whole
  have spaces : ∀ b ∈ bytesOf (textsOf [" \t"]).text, isBlankByte b = true :=
    List.all_eq_true.mp ((blankBytes _).trans (by decide))
  have same : blank = true := bytes.mpr ⟨by simp [textsOf, Paragraph.ofContent], spaces⟩
  subst same
  exact ⟨whole, parted, regrouped, holder, answer, others _ parted regrouped,
    (blankByBytes .checked).2 _ _ _ holder rfl⟩

end DocTree
