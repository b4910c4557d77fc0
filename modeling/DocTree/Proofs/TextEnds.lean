import DocTree.Node.Block
import DocTree.Proofs.Spans

/-! Where texts end. The bytes of a text are counted as a signed distance, which wraps around; what
stands in front of the text is added up to the longest distance, and all of it to the offset up to
the last one. While the count fits into a distance this is one sum that stops at the last offset. A
longer text ends too early, or even before it begins, unless the last offset is reached anyway. -/
namespace DocTree

namespace Location

def reach (start : UInt32) (count : Nat) : Location :=
  .valid (UInt32.ofNat (min (start.toNat + count) 4294967295))

/-- The length of a text fits into a distance, or what it comes to leads past the last offset. -/
def Measured (start : UInt32) (skip : Nat) (text : String) : Prop :=
  skip + text.utf8ByteSize ≤ 2147483647 ∨
    4294967295 ≤ start.toNat + clampDistance (skip + byteDistance text)

theorem reachNat (start : UInt32) (count : Nat) :
    (UInt32.ofNat (min (start.toNat + count) 4294967295)).toNat =
      min (start.toNat + count) 4294967295 := by
  rw [UInt32.toNat_ofNat']
  omega

theorem pastTextStop (start stop : UInt32) (skip : Int) (text : String) :
    (valid start).pastText skip text = .valid stop ↔
      min (start.toNat + clampDistance (skip + byteDistance text)).toNat 4294967295 =
        stop.toNat := by
  show valid (clampOffset _) = _ ↔ _
  rw [valid.injEq, ← UInt32.toNat_inj, clampOffsetNat]

theorem pastTextReach (start : UInt32) (skip : Nat) (text : String) :
    (valid start).pastText skip text = reach start (skip + text.utf8ByteSize) ↔
      Measured start skip text := by
  have bound := start.toNat_lt
  rw [reach, pastTextStop, reachNat]
  unfold Measured byteDistance clampDistance
  rw [Int.bmod_def]
  omega

theorem shiftReach (start : UInt32) {before count : Nat} (near : before ≤ count) :
    (valid start).shift before ≤ reach start count := by
  show (clampOffset _).toNat + 1 ≤ (UInt32.ofNat _).toNat + 1
  rw [clampOffsetNat, reachNat]
  omega

theorem reachWhole {start stop : UInt32} {count : Nat} (same : reach start count = .valid stop) :
    start.toNat + count ≤ stop.toNat ∨ stop.toNat = 4294967295 := by
  have number := congrArg UInt32.toNat (valid.inj same)
  rw [reachNat] at number
  omega

end Location

open Location (reach Measured)

inductive Derived (start : UInt32) : Nat → String → Span → Prop where
  | line (text) : Derived start 0 text (VerbatimBlockLine.make (.valid start) text).header.span
  | startTag (name) : Derived start 1 name (StartTag.make (.valid start) name).header.span
  | startName (name) : Derived start 1 name (StartTag.make (.valid start) name).nameSpan
  | endName (stop name) : Derived start 2 name (EndTag.make (.valid start) stop name).nameSpan
  | attributeName (a : Attribute) (place : a.nameStart = .valid start) :
      Derived start 0 a.name a.nameSpan
  | command (t : CommandTable) (base : BlockCommand Comment) {name}
      (place : base.header.span.start = .valid start) (named : base.name? t = some name) :
      Derived start 1 name ((base.nameSpan? t).getD .unset)

variable {start : UInt32} {skip : Nat} {text : String} {s : Span}

theorem derivedStop (derived : Derived start skip text s) :
    s.stop = (Location.valid start).pastText skip text := by
  cases derived with
  | attributeName a place => rw [Attribute.nameSpan, Attribute.nameStop, place]; rfl
  | command t base place named => simp [BlockCommand.nameSpan?, named, place]
  | _ => rfl

theorem derivedStart (derived : Derived start skip text s) :
    ∃ before : Nat, before ≤ skip ∧ s.start = (Location.valid start).shift before := by
  have whole : Location.valid start = (Location.valid start).shift (0 : Nat) :=
    (Location.shiftZero _).symm
  cases derived with
  | line => exact ⟨0, Nat.le_refl 0, whole⟩
  | startTag => exact ⟨0, Nat.zero_le 1, whole⟩
  | startName => exact ⟨1, Nat.le_refl 1, rfl⟩
  | endName => exact ⟨2, Nat.le_refl 2, rfl⟩
  | attributeName a place => exact ⟨0, Nat.le_refl 0, place.trans whole⟩
  | command t base place named =>
    exact ⟨1, Nat.le_refl 1, by simp [BlockCommand.nameSpan?, BlockCommand.nameStart, named, place]⟩

structure Reaches (start : UInt32) (skip : Nat) (text : String) (s : Span) : Prop where
  stop : s.stop = reach start (skip + text.utf8ByteSize)
  range : s.IsRange
  whole : ∀ stop, s.stop = .valid stop →
    start.toNat + (skip + text.utf8ByteSize) ≤ stop.toNat ∨ stop.toNat = 4294967295

theorem textsReached (start : UInt32) (skip : Nat) (text : String) (s : Span)
    (derived : Derived start skip text s) :
    Reaches start skip text s ↔ Measured start skip text := by
  have agrees := Location.pastTextReach start skip text
  rw [← derivedStop derived] at agrees
  refine ⟨fun reaches => agrees.mp reaches.stop, fun measured => ?_⟩
  have stop := agrees.mpr measured
  obtain ⟨before, near, first⟩ := derivedStart derived
  refine ⟨stop, ⟨?_, ?_⟩, fun last same => Location.reachWhole (stop.symm.trans same)⟩
  · rw [Span.isValid, first, stop]
    rfl
  · rw [first, stop]
    exact Location.shiftReach start (Nat.le_trans near (Nat.le_add_right _ _))

theorem edgeReached : Derived 4294967290 1 "section"
      (StartTag.make (.valid 4294967290) "section").nameSpan ∧ Measured 4294967290 1 "section" ∧
    Reaches 4294967290 1 "section" (StartTag.make (.valid 4294967290) "section").nameSpan := by
  have measured : Measured 4294967290 1 "section" := .inl (by decide)
  exact ⟨.startName _, measured, (textsReached _ _ _ _ (.startName _)).mpr measured⟩

theorem repeatedSize (count : Nat) :
    (String.ofList (List.replicate count 'a')).utf8ByteSize = count := by
  induction count with
  | zero => rfl
  | succ count ih =>
    rw [List.replicate_succ, String.ofList_cons, String.utf8ByteSize_append, ih,
      String.utf8ByteSize_singleton, Nat.add_comm]
    rfl

theorem longTextsCut :
    (VerbatimBlockLine.make (.valid 10)
      (.ofList (List.replicate 2147483648 'a'))).header.span = ⟨.valid 10, .valid 0⟩ ∧
    reach 10 (0 + 2147483648) = .valid 2147483658 ∧
    (StartTag.make (.valid 10) (.ofList (List.replicate 2147483647 'a'))).nameSpan =
      ⟨.valid 11, .valid 2147483657⟩ ∧
    reach 10 (1 + 2147483647) = .valid 2147483658 := by
  have turned (text : String) (size : text.utf8ByteSize = 2147483648) :
      (Location.valid 10).pastText 0 text = .valid 0 := by
    rw [Location.pastTextStop]
    unfold byteDistance clampDistance
    rw [size, Int.bmod_def]
    simp only [UInt32.toNat_ofNat]
    omega
  have cut (text : String) (size : text.utf8ByteSize = 2147483647) :
      (Location.valid 10).pastText 1 text = .valid 2147483657 := by
    rw [Location.pastTextStop]
    unfold byteDistance clampDistance
    rw [size, Int.bmod_def]
    simp only [UInt32.toNat_ofNat]
    omega
  refine ⟨?_, ?_, ?_, ?_⟩
  · rw [VerbatimBlockLine.make, Header.ofSpan, turned _ (repeatedSize _)]
  · simp [reach]
  · rw [StartTag.make, cut _ (repeatedSize _)]
    rfl
  · simp [reach]

end DocTree
