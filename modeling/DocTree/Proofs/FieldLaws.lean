import DocTree.Proofs.Modes

/-! Laws of bit fields among themselves. A field that fits in the word is a lens on it: a write is
read back, leaves all other bits, counts only until the next one, and writing what stands there
changes nothing. Fields overlap exactly if they share a bit; those that share none are read and
written independently, and so are fields laid out one right after the other. -/
namespace DocTree.Field

variable {f g : Field}

theorem besideCovers (left : f.Fits) (right : g.Fits) (beside : f.overlaps g = false) {i : Nat}
    (covers : g.Covers i) : ¬ f.Covers i := by
  intro both
  rw [(overlapsShared left right).mpr ⟨i, both, covers⟩] at beside
  cases beside

theorem setSetBeside (left : f.Fits) (right : g.Fits)
    (beside : ∀ i, g.Covers i → ¬ f.Covers i) (w v u : UInt32) :
    g.set (f.set w v) u = f.set (g.set w u) v := by
  apply wordExt
  intro i _
  rw [setBit right, setBit left, setBit left, setBit right]
  by_cases covers : g.Covers i
  · rw [if_pos covers, if_neg (beside i covers), if_pos covers]
  · rw [if_neg covers, if_neg covers]

theorem setSetSame (fits : f.Fits) (w v u : UInt32) : f.set (f.set w v) u = f.set w u := by
  apply wordExt
  intro i _
  rw [setBit fits, setBit fits, setBit fits]
  split <;> rfl

theorem setGetSame (fits : f.Fits) (w : UInt32) : f.set w (f.get w) = w := by
  apply wordExt
  intro i _
  rw [setBit fits]
  split
  · rename_i covers
    have within : i - f.offset.toNat < f.width.toNat := by unfold Covers at covers; omega
    have place : f.offset.toNat + (i - f.offset.toNat) = i := Nat.add_sub_of_le covers.1
    rw [getBit fits, place, decide_eq_true within, Bool.true_and]
  · rfl

theorem getFitting (fits : f.Fits) (w : UInt32) : f.get w ≤ f.maxValue := by
  have high : (f.get w).toNat < 2 ^ f.width.toNat := by
    refine Nat.lt_pow_two_of_testBit _ fun i past => ?_
    rw [getBit fits, decide_eq_false (Nat.not_lt.mpr past), Bool.false_and]
  rw [UInt32.le_iff_toNat_le, maxValueNat fits]
  omega

structure Lawful (f g : Field) : Prop where
  getSet (w : UInt32) {v : UInt32} (small : v ≤ f.maxValue) : f.get (f.set w v) = v
  setOutside (w v : UInt32) {i : Nat} (outside : ¬ f.Covers i) :
    (f.set w v).toNat.testBit i = w.toNat.testBit i
  shared : f.overlaps g = true ↔ ∃ i, f.Covers i ∧ g.Covers i
  getOther (beside : f.overlaps g = false) (w v : UInt32) : g.get (f.set w v) = g.get w
  setOther (beside : f.overlaps g = false) (w v u : UInt32) :
    g.set (f.set w v) u = f.set (g.set w u) v
  setSet (w v u : UInt32) : f.set (f.set w v) u = f.set w u
  setGet (w : UInt32) : f.get w ≤ f.maxValue ∧ f.set w (f.get w) = w
  getPasses (m : Mode) (w : UInt32) : f.getIn m w = .ok (f.get w)
  setPasses (m : Mode) (w : UInt32) {v : UInt32} (small : v ≤ f.maxValue) :
    f.setIn m w v = .ok (f.set w v)
  overlapsPasses (m : Mode) : f.overlapsIn m g = .ok (f.overlaps g)

theorem lawful (left : f.Fits) (right : g.Fits) : Lawful f g where
  getSet w _ small := getSetSame left small w
  setOutside w v i outside := by rw [setBit left, if_neg outside]
  shared := overlapsShared left right
  getOther beside := getSetBeside left right fun _ => besideCovers left right beside
  setOther beside := setSetBeside left right fun _ => besideCovers left right beside
  setSet := setSetSame left
  setGet w := ⟨getFitting left w, setGetSame left w⟩
  getPasses m w := by rw [getIn, maskPasses m left]; rfl
  setPasses m w _ small := by rw [setIn, Field.setPasses m left small]; rfl
  overlapsPasses m := by rw [overlapsIn, maskPasses m left, maskPasses m right]; rfl

def chain (f : Field) : List UInt32 → List Field
  | [] => [f]
  | width :: rest => f :: (f.after width).chain rest

def chainIn (m : Mode) (f : Field) : List UInt32 → Run (List Field)
  | [] => .ok [f]
  | width :: rest => do
    let next ← f.afterIn m width
    return f :: (← next.chainIn m rest)

theorem stopNat (fits : f.Fits) : f.stop.toNat = f.offset.toNat + f.width.toNat := by
  have whole := fits.whole
  rw [stop, UInt32.toNat_add]
  omega

theorem chainFrom {widths : List UInt32} (fits : ∀ h ∈ f.chain widths, h.Fits) :
    ∀ h ∈ f.chain widths, f.offset.toNat ≤ h.offset.toNat := by
  induction widths generalizing f with
  | nil =>
    intro h member
    rw [List.mem_singleton.mp member]
  | cons width rest ih =>
    rw [chain, List.forall_mem_cons] at fits ⊢
    refine ⟨Nat.le_refl _, fun h member => ?_⟩
    have later : f.stop.toNat ≤ h.offset.toNat := ih fits.2 h member
    rw [stopNat fits.1] at later
    omega

theorem chainApart {widths : List UInt32} (fits : ∀ h ∈ f.chain widths, h.Fits) :
    (f.chain widths).Pairwise Apart := by
  induction widths generalizing f with
  | nil => exact List.pairwise_singleton _ _
  | cons width rest ih =>
    rw [chain, List.forall_mem_cons] at fits
    rw [chain, List.pairwise_cons]
    refine ⟨fun h member => ⟨fits.1, fits.2 h member, .inl ?_⟩, ih fits.2⟩
    have later : f.stop.toNat ≤ h.offset.toNat := chainFrom fits.2 h member
    rwa [stopNat fits.1] at later

theorem chainPasses (m : Mode) {widths : List UInt32} (fits : ∀ h ∈ f.chain widths, h.Fits) :
    f.chainIn m widths = .ok (f.chain widths) := by
  induction widths generalizing f with
  | nil => rfl
  | cons width rest ih =>
    rw [chain, List.forall_mem_cons] at fits
    have bound : f.offset.toNat + f.width.toNat < 4294967296 := by
      have whole := fits.1.whole
      omega
    have next : f.afterIn m width = .ok (f.after width) := by
      rw [afterIn, guardStop, decide_eq_true bound, demandPasses]
      rfl
    exact bindOk.mpr ⟨_, next, bindOk.mpr ⟨_, ih fits.2, rfl⟩⟩

theorem fieldsLawful :
    (∀ f g : Field, f.Fits → g.Fits → Lawful f g) ∧
    ∀ (f : Field) (widths : List UInt32), (∀ h ∈ f.chain widths, h.Fits) →
      (∀ m, f.chainIn m widths = .ok (f.chain widths)) ∧
      (f.chain widths).Pairwise fun h k => h.overlaps k = false :=
  ⟨fun _ _ => lawful, fun _ _ fits =>
    ⟨fun m => chainPasses m fits, (chainApart fits).imp apartOverlaps⟩⟩

theorem wholeLawful :
    (Fits ⟨0, 32⟩ ∧ Fits ⟨31, 1⟩ ∧ Lawful ⟨0, 32⟩ ⟨31, 1⟩) ∧
    (∀ h ∈ chain ⟨0, 8⟩ [1, 2, 16, 0, 5], h.Fits) ∧
      (chain ⟨0, 8⟩ [1, 2, 16, 0, 5]).Pairwise fun h k => h.overlaps k = false := by
  have whole : Fits ⟨0, 32⟩ := by decide
  have last : Fits ⟨31, 1⟩ := by decide
  have fits : ∀ h ∈ chain ⟨0, 8⟩ [1, 2, 16, 0, 5], h.Fits := by decide
  exact ⟨⟨whole, last, fieldsLawful.1 _ _ whole last⟩, fits, (fieldsLawful.2 _ _ fits).2⟩

example : Layout.kind.chain [1, 1, 1, 1] =
    [Layout.kind, Layout.trailingNewline, Layout.textWhitespaceValid, Layout.textWhitespace,
      Layout.textWhitespaceBusy] := rfl

end DocTree.Field
