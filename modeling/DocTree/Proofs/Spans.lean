import DocTree.Tree.Check
import Mathlib.Data.List.Chain

/-! Locations and spans as the rules of a finished tree compare them: what moving a location
does to its place in the order, what extending a span keeps, and that the hull of spans in
source order holds each of them. -/
namespace DocTree

namespace Location

theorem validForward {a b : Location} (forward : a ≤ b) (valid : a.isValid = true) :
    b.isValid = true := by
  cases b with
  | valid offset => rfl
  | invalid =>
    cases a with
    | valid offset => exact absurd forward (Nat.not_succ_le_zero offset.toNat)
    | invalid => nomatch valid

theorem clampOffsetNat (n : Int) : (clampOffset n).toNat = min n.toNat 4294967295 := by
  unfold clampOffset
  rw [UInt32.toNat_ofNat']
  omega

theorem shiftMono (loc : Location) {near far : Int} (further : near ≤ far) :
    loc.shift near ≤ loc.shift far := by
  cases loc with
  | invalid => exact Nat.le_refl _
  | valid offset =>
    show (clampOffset _).toNat + 1 ≤ (clampOffset _).toNat + 1
    rw [clampOffsetNat, clampOffsetNat]
    omega

theorem shiftZero (loc : Location) : loc.shift 0 = loc := by
  cases loc with
  | invalid => rfl
  | valid offset =>
    have bound := offset.toNat_lt
    refine congrArg valid (UInt32.toNat_inj.mp ?_)
    rw [clampOffsetNat]
    omega

theorem shiftForward (loc : Location) {distance : Int} (forward : 0 ≤ distance) :
    loc ≤ loc.shift distance := by
  have moved := shiftMono loc forward
  rwa [shiftZero] at moved

theorem pastTextForward (loc : Location) (skip : Int) (forward : 0 ≤ skip) (near : skip ≤ 2)
    {text : String} (short : text.utf8ByteSize < 2147483647) :
    loc.shift skip ≤ loc.pastText skip text := by
  refine shiftMono loc ?_
  have length : byteDistance text = text.utf8ByteSize := by
    unfold byteDistance
    rw [Int.bmod_def]
    omega
  rw [length]
  unfold clampDistance
  omega

end Location

namespace Span

theorem extendStart (s : Span) (stop : Location) : (s.extend stop).start = s.start := by
  unfold extend
  split <;> rfl

theorem extendLeft (s : Span) (stop : Location) : s.stop ≤ (s.extend stop).stop := by
  unfold extend
  split
  · rename_i taken
    rw [Bool.and_eq_true, Bool.not_eq_true', Bool.and_eq_false_iff] at taken
    rcases taken.2 with unset | later
    · cases same : s.stop with
      | invalid => exact Nat.zero_le _
      | valid offset => rw [same] at unset; nomatch unset
    · exact Nat.le_of_not_lt (of_decide_eq_false later)
  · exact Nat.le_refl _

theorem extendRight (s : Span) (stop : Location) : stop ≤ (s.extend stop).stop := by
  unfold extend
  split
  · exact Nat.le_refl _
  · rename_i kept
    cases stop with
    | invalid => exact Nat.zero_le _
    | valid offset =>
      rw [Bool.not_eq_true, Bool.and_eq_false_iff] at kept
      rcases kept with unset | earlier
      · nomatch unset
      · rw [Bool.not_eq_false', Bool.and_eq_true] at earlier
        exact Nat.le_of_lt (of_decide_eq_true earlier.2)

structure IsRange (s : Span) : Prop where
  valid : s.isValid = true
  ordered : s.start ≤ s.stop

instance (s : Span) : Decidable s.IsRange :=
  decidable_of_iff (s.isValid = true ∧ s.start ≤ s.stop) ⟨fun h => ⟨h.1, h.2⟩, fun h => ⟨h.1, h.2⟩⟩

theorem validStart {s : Span} (h : s.isValid = true) : s.start.isValid = true :=
  (Bool.and_eq_true_iff.mp h).1

theorem validStop {s : Span} (h : s.isValid = true) : s.stop.isValid = true :=
  (Bool.and_eq_true_iff.mp h).2

def Follows (a b : Span) : Prop := a.stop ≤ b.start

instance (a b : Span) : Decidable (Follows a b) := inferInstanceAs (Decidable (a.stop ≤ b.start))

theorem chainStart {s : Span} {rest : List Span} (chained : (s :: rest).IsChain Follows)
    (ranges : ∀ x ∈ s :: rest, x.IsRange) : ∀ x ∈ s :: rest, s.start ≤ x.start := by
  induction rest generalizing s with
  | nil =>
    intro x member
    rw [List.mem_singleton.mp member]
    exact Nat.le_refl _
  | cons next rest ih =>
    obtain ⟨follows, later⟩ := List.isChain_cons_cons.mp chained
    intro x member
    rcases List.mem_cons.mp member with rfl | member
    · exact Nat.le_refl _
    · have first : s.start ≤ next.start := Nat.le_trans (ranges s (by simp)).ordered follows
      exact Nat.le_trans first
        (ih later (fun y inside => ranges y (List.mem_cons_of_mem _ inside)) x member)

theorem chainStop {s : Span} {rest : List Span} (chained : (s :: rest).IsChain Follows)
    (ranges : ∀ x ∈ s :: rest, x.IsRange) : ∀ x ∈ s :: rest, x.stop ≤ (rest.getLastD s).stop := by
  induction rest generalizing s with
  | nil =>
    intro x member
    rw [List.mem_singleton.mp member]
    exact Nat.le_refl _
  | cons next rest ih =>
    obtain ⟨follows, later⟩ := List.isChain_cons_cons.mp chained
    have inside := ih later fun y inside => ranges y (List.mem_cons_of_mem _ inside)
    intro x member
    rw [List.getLastD_cons]
    rcases List.mem_cons.mp member with rfl | member
    · have first : x.stop ≤ next.stop := Nat.le_trans follows (ranges next (by simp)).ordered
      exact Nat.le_trans first (inside next (by simp))
    · exact inside x member

theorem hullRange {spans : List Span} (some : spans ≠ []) (chained : spans.IsChain Follows)
    (ranges : ∀ x ∈ spans, x.IsRange) : (hull spans).IsRange := by
  cases spans with
  | nil => contradiction
  | cons s rest =>
    have first := ranges s (by simp)
    have last := ranges _ List.getLastD_mem_cons
    have start := validStart first.valid
    have stop := validStop last.valid
    refine ⟨Bool.and_eq_true_iff.mpr ⟨start, stop⟩, ?_⟩
    exact Nat.le_trans first.ordered (chainStop chained ranges s (by simp))

theorem hullHolds {spans : List Span} (chained : spans.IsChain Follows)
    (ranges : ∀ x ∈ spans, x.IsRange) :
    ∀ x ∈ spans, (hull spans).start ≤ x.start ∧ x.stop ≤ (hull spans).stop := by
  cases spans with
  | nil => simp
  | cons s rest =>
    intro x member
    exact ⟨chainStart chained ranges x member, chainStop chained ranges x member⟩

theorem hullPositioned {spans : List Span} (unset : ∀ x ∈ spans, x.isValid = false → x = unset)
    (valid : (hull spans).isValid = true) : hull (spans.filter (·.isValid)) = hull spans := by
  cases spans with
  | nil => rfl
  | cons s rest =>
    have positioned {x : Span} (member : x ∈ s :: rest)
        (some : x.start.isValid = true ∨ x.stop.isValid = true) : x.isValid = true := by
      cases held : x.isValid with
      | true => rfl
      | false =>
        rw [unset x member held] at some
        rcases some with bad | bad <;> nomatch bad
    have start := validStart valid
    have stop := validStop valid
    have first := positioned (List.mem_cons_self ..) (.inl start)
    have last := positioned List.getLastD_mem_cons (.inr stop)
    rw [List.filter_cons_of_pos first]
    have same : (rest.filter (·.isValid)).getLastD s = rest.getLastD s := by
      rcases List.eq_nil_or_concat rest with rfl | ⟨before, x, rfl⟩
      · rfl
      · rw [List.concat_eq_append, List.getLastD_concat] at last ⊢
        rw [List.filter_append, List.filter_cons_of_pos last, List.filter_nil,
          List.getLastD_concat]
    simp only [hull, same]

end Span

namespace Header

theorem ownQuiet {h : Header} (inside : h.span.isValid = true →
    h.span.start ≤ h.location ∧ h.location ≤ h.span.stop) : h.violations = [] := by
  unfold violations
  cases valid : h.span.isValid with
  | false => simp [Span.isInverted, valid]
  | true =>
    obtain ⟨left, right⟩ := inside valid
    have ordered : ¬ h.span.stop < h.span.start :=
      Nat.not_lt.mpr (Nat.le_trans left right)
    cases located : h.location.isValid <;>
      simp [Span.isInverted, Span.contains, valid, ordered, located, left, right]

theorem startQuiet {h : Header} (location : h.location = h.span.start)
    (ordered : h.span.isValid = true → h.span.start ≤ h.span.stop) : h.violations = [] := by
  refine ownQuiet fun valid => ?_
  rw [location]
  exact ⟨Nat.le_refl _, ordered valid⟩

theorem edgeQuiet {parent child : Header} (allowed : parent.kind.allows child.kind = true)
    (ordered : child.span.isValid = true → child.span.start ≤ child.span.stop)
    (inside : parent.span.isValid = true → child.span.isValid = true →
      parent.span.start ≤ child.span.start ∧ child.span.stop ≤ parent.span.stop) :
    parent.edgeViolations child = [] := by
  unfold edgeViolations
  rw [if_pos allowed, List.nil_append]
  cases outer : parent.span.isValid with
  | false => rfl
  | true =>
    cases inner : child.span.isValid with
    | false => rfl
    | true =>
      obtain ⟨left, right⟩ := inside outer inner
      have first : child.span.start ≤ parent.span.stop := Nat.le_trans (ordered inner) right
      have last : parent.span.start ≤ child.span.stop := Nat.le_trans left (ordered inner)
      simp [Span.encloses, Span.contains, outer, Span.validStart inner, Span.validStop inner, left,
        right, first, last]

end Header
end DocTree
