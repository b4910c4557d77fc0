import DocTree.Bits.Word
import Mathlib.Algebra.Group.Nat.Defs

/-! Laws of bit fields, bit by bit. A field that fits in the word covers an interval of
positions; writing it replaces exactly those bits, so what is read back is what was
written, and a field beside it, with no bit in common, reads as before. -/
namespace DocTree.Field

structure Fits (f : Field) : Prop where
  inside : f.offset.toNat < 32
  whole : f.offset.toNat + f.width.toNat ≤ 32

structure Guarded (f : Field) : Prop where
  inside : f.offset.toNat < 32
  narrow : f.width.toNat < 64

instance (f) : Decidable (Guarded f) :=
  decidable_of_iff (f.offset.toNat < 32 ∧ f.width.toNat < 64)
    ⟨fun h => ⟨h.1, h.2⟩, fun h => ⟨h.inside, h.narrow⟩⟩

theorem fitsGuarded {f : Field} (fits : f.Fits) : f.Guarded :=
  ⟨fits.inside, by have := fits.whole; omega⟩

def Covers (f : Field) (i : Nat) : Prop :=
  f.offset.toNat ≤ i ∧ i < f.offset.toNat + f.width.toNat

instance (f i) : Decidable (Covers f i) := inferInstanceAs (Decidable (_ ∧ _))

instance (f) : Decidable (Fits f) :=
  decidable_of_iff (f.offset.toNat < 32 ∧ f.offset.toNat + f.width.toNat ≤ 32)
    ⟨fun h => ⟨h.1, h.2⟩, fun h => ⟨h.inside, h.whole⟩⟩

structure Apart (f g : Field) : Prop where
  left : f.Fits
  right : g.Fits
  disjoint : f.offset.toNat + f.width.toNat ≤ g.offset.toNat ∨
    g.offset.toNat + g.width.toNat ≤ f.offset.toNat

instance (f g) : Decidable (Apart f g) :=
  decidable_of_iff (f.Fits ∧ g.Fits ∧ (_ ∨ _))
    ⟨fun h => ⟨h.1, h.2.1, h.2.2⟩, fun h => ⟨h.left, h.right, h.disjoint⟩⟩

theorem apartSymm {f g} (h : Apart f g) : Apart g f := ⟨h.right, h.left, h.disjoint.symm⟩

theorem apartCovers {f g i} (h : Apart f g) (covers : Covers f i) : ¬ Covers g i := by
  have disjoint := h.disjoint
  unfold Covers at covers ⊢
  omega

theorem highBit (w : UInt32) {i : Nat} (past : 32 ≤ i) : w.toNat.testBit i = false :=
  Nat.testBit_lt_two_pow (Nat.lt_of_lt_of_le w.toNat_lt (Nat.pow_le_pow_right (by omega) past))

theorem wordExt {a b : UInt32} (same : ∀ i < 32, a.toNat.testBit i = b.toNat.testBit i) :
    a = b := by
  apply UInt32.toNat_inj.mp
  apply Nat.eq_of_testBit_eq
  intro i
  by_cases inside : i < 32
  · exact same i inside
  · rw [highBit a (Nat.le_of_not_lt inside), highBit b (Nat.le_of_not_lt inside)]

theorem notBit (w : UInt32) (i : Nat) :
    (~~~w).toNat.testBit i = (decide (i < 32) && !w.toNat.testBit i) := by
  have size : UInt32.size - 1 - w.toNat = 2 ^ 32 - (w.toNat + 1) := by
    have bound : UInt32.size = 2 ^ 32 := rfl
    omega
  rw [UInt32.toNat_not, size]
  exact Nat.testBit_two_pow_sub_succ w.toNat_lt i

theorem maxValueCut {f : Field} (guarded : f.Guarded) :
    f.maxValue.toNat = (2 ^ f.width.toNat - 1) % 2 ^ 32 := by
  have narrow := guarded.narrow
  have power : 2 ^ f.width.toNat < 2 ^ 64 := Nat.pow_lt_pow_right (by omega) narrow
  have positive : 0 < 2 ^ f.width.toNat := Nat.two_pow_pos _
  have shifted : ((1 : UInt64) <<< f.width.toUInt64).toNat = 2 ^ f.width.toNat := by
    rw [UInt64.toNat_shiftLeft, UInt32.toNat_toUInt64, Nat.mod_eq_of_lt (by omega : _ < 64),
      Nat.shiftLeft_eq]
    simp only [UInt64.toNat_one, Nat.one_mul]
    exact Nat.mod_eq_of_lt (by omega)
  have one : (1 : UInt64) ≤ (1 : UInt64) <<< f.width.toUInt64 := by
    rw [UInt64.le_iff_toNat_le, shifted]
    exact positive
  unfold maxValue
  rw [UInt64.toNat_toUInt32, UInt64.toNat_sub_of_le _ _ one, shifted, UInt64.toNat_one]

theorem maxValueNat {f : Field} (fits : f.Fits) : f.maxValue.toNat = 2 ^ f.width.toNat - 1 := by
  have narrow : f.width.toNat ≤ 32 := by have := fits.whole; omega
  have power : 2 ^ f.width.toNat ≤ 2 ^ 32 := Nat.pow_le_pow_right (by omega) narrow
  have positive : 0 < 2 ^ f.width.toNat := Nat.two_pow_pos _
  rw [maxValueCut (fitsGuarded fits)]
  exact Nat.mod_eq_of_lt (by omega)

theorem shiftedBit {f : Field} (inside : f.offset.toNat < 32) (v : UInt32) (i : Nat) :
    (v <<< f.offset).toNat.testBit i =
      (decide (i < 32) &&
        (decide (f.offset.toNat ≤ i) && v.toNat.testBit (i - f.offset.toNat))) := by
  rw [UInt32.toNat_shiftLeft, Nat.mod_eq_of_lt inside, Nat.testBit_mod_two_pow,
    Nat.testBit_shiftLeft]

theorem maskCut {f : Field} (guarded : f.Guarded) (i : Nat) :
    f.mask.toNat.testBit i = decide (i < 32 ∧ f.Covers i) := by
  unfold mask
  rw [shiftedBit guarded.inside, maxValueCut guarded, Nat.testBit_mod_two_pow,
    Nat.testBit_two_pow_sub_one]
  rw [← Bool.decide_and, ← Bool.decide_and, ← Bool.decide_and, decide_eq_decide]
  unfold Covers
  omega

theorem maskBit {f : Field} (fits : f.Fits) (i : Nat) :
    f.mask.toNat.testBit i = decide (f.Covers i) := by
  have whole := fits.whole
  rw [maskCut (fitsGuarded fits), decide_eq_decide]
  unfold Covers
  omega

theorem getCut {f : Field} (guarded : f.Guarded) (w : UInt32) (i : Nat) :
    (f.get w).toNat.testBit i =
      (w.toNat.testBit (f.offset.toNat + i) && decide (f.offset.toNat + i < 32 ∧
        f.Covers (f.offset.toNat + i))) := by
  unfold get
  rw [UInt32.toNat_shiftRight, Nat.mod_eq_of_lt guarded.inside, Nat.testBit_shiftRight,
    UInt32.toNat_and, Nat.testBit_and, maskCut guarded]

theorem getBit {f : Field} (fits : f.Fits) (w : UInt32) (i : Nat) :
    (f.get w).toNat.testBit i =
      (decide (i < f.width.toNat) && w.toNat.testBit (f.offset.toNat + i)) := by
  have whole := fits.whole
  have covers : f.offset.toNat + i < 32 ∧ f.Covers (f.offset.toNat + i) ↔ i < f.width.toNat := by
    unfold Covers
    omega
  rw [getCut (fitsGuarded fits), decide_eq_decide.mpr covers, Bool.and_comm]

theorem setBit {f : Field} (fits : f.Fits) (w v : UInt32) (i : Nat) :
    (f.set w v).toNat.testBit i =
      if f.Covers i then v.toNat.testBit (i - f.offset.toNat) else w.toNat.testBit i := by
  have whole := fits.whole
  unfold set
  rw [UInt32.toNat_or, Nat.testBit_or, UInt32.toNat_and, Nat.testBit_and, UInt32.toNat_and,
    Nat.testBit_and, notBit, maskBit fits, shiftedBit fits.inside]
  split
  · rename_i covers
    have inside : i < 32 := by unfold Covers at covers; omega
    simp [covers, inside, covers.1]
  · rename_i outside
    by_cases inside : i < 32
    · simp [outside, inside]
    · simp [outside, highBit w (Nat.le_of_not_lt inside)]

theorem fittingBit {f : Field} {v : UInt32} (fits : f.Fits) (small : v ≤ f.maxValue) {i : Nat}
    (past : f.width.toNat ≤ i) : v.toNat.testBit i = false := by
  have bound : v.toNat ≤ 2 ^ f.width.toNat - 1 := by
    rw [← maxValueNat fits]
    exact UInt32.le_iff_toNat_le.mp small
  have positive : 0 < 2 ^ f.width.toNat := Nat.two_pow_pos _
  have power : 2 ^ f.width.toNat ≤ 2 ^ i := Nat.pow_le_pow_right (by omega) past
  exact Nat.testBit_lt_two_pow (by omega)

theorem getSetSame {f : Field} {v : UInt32} (fits : f.Fits) (small : v ≤ f.maxValue) (w : UInt32) :
    f.get (f.set w v) = v := by
  apply wordExt
  intro i _
  rw [getBit fits, setBit fits]
  by_cases within : i < f.width.toNat
  · have covers : f.Covers (f.offset.toNat + i) := by unfold Covers; omega
    simp [within, covers]
  · simp [within, fittingBit fits small (Nat.le_of_not_lt within)]

theorem getSetBeside {f g : Field} (left : f.Fits) (right : g.Fits)
    (beside : ∀ i, g.Covers i → ¬ f.Covers i) (w v : UInt32) : g.get (f.set w v) = g.get w := by
  apply wordExt
  intro i _
  rw [getBit right, getBit right, setBit left]
  by_cases within : i < g.width.toNat
  · have covers : g.Covers (g.offset.toNat + i) := by unfold Covers; omega
    rw [if_neg (beside _ covers)]
  · simp [within]

theorem getSetApart {f g : Field} (apart : Apart f g) (w v : UInt32) :
    g.get (f.set w v) = g.get w :=
  getSetBeside apart.left apart.right (fun _ => apartCovers (apartSymm apart)) w v

theorem overlapsCut {f g : Field} (left : f.Guarded) (right : g.Guarded) :
    f.overlaps g = true ↔ ∃ i < 32, f.Covers i ∧ g.Covers i := by
  have bit (i : Nat) :
      (f.mask &&& g.mask).toNat.testBit i = decide (i < 32 ∧ f.Covers i ∧ g.Covers i) := by
    rw [UInt32.toNat_and, Nat.testBit_and, maskCut left, maskCut right, ← Bool.decide_and,
      decide_eq_decide, and_and_and_comm, and_self]
  unfold overlaps
  rw [bne_iff_ne]
  constructor
  · intro some
    obtain ⟨i, set⟩ := Nat.exists_testBit_of_ne_zero fun none => some (UInt32.toNat_inj.mp none)
    exact ⟨i, of_decide_eq_true (bit i ▸ set)⟩
  · rintro ⟨i, shared⟩ none
    have set := bit i
    rw [none, decide_eq_true shared] at set
    exact absurd set (by simp)

theorem overlapsShared {f g : Field} (left : f.Fits) (right : g.Fits) :
    f.overlaps g = true ↔ ∃ i, f.Covers i ∧ g.Covers i := by
  have whole := left.whole
  rw [overlapsCut (fitsGuarded left) (fitsGuarded right)]
  refine exists_congr fun i => and_iff_right_of_imp fun shared => ?_
  have covers := shared.1
  unfold Covers at covers
  omega

theorem apartOverlaps {f g : Field} (apart : Apart f g) : f.overlaps g = false := by
  rw [← Bool.not_eq_true, overlapsShared apart.left apart.right]
  rintro ⟨i, left, right⟩
  exact apartCovers apart left right

end DocTree.Field
