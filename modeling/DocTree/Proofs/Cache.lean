import DocTree.Proofs.Bits

/-! A node's word as a record. Writes to a field leave the kind and every field apart from
it alone. A cache that is clean between reads is published by writing its value and then
its valid flag, so a first read is two such writes, and every later read answers the
same. -/
namespace DocTree

namespace Field

structure IsFlag (f : Field) : Prop where
  inside : f.offset.toNat < 32
  single : f.width = 1

instance (f) : Decidable (IsFlag f) :=
  decidable_of_iff (f.offset.toNat < 32 ∧ f.width = 1)
    ⟨fun h => ⟨h.1, h.2⟩, fun h => ⟨h.inside, h.single⟩⟩

theorem flagFits {f} (h : IsFlag f) : Fits f := by
  have inside := h.inside
  refine ⟨inside, ?_⟩
  rw [h.single, UInt32.toNat_one]
  omega

theorem flagCovers {f} (h : IsFlag f) (i : Nat) : Covers f i ↔ i = f.offset.toNat := by
  unfold Covers
  rw [h.single, UInt32.toNat_one]
  omega

theorem flagBit {f : Field} (h : IsFlag f) (w : UInt32) :
    f.flag w = w.toNat.testBit f.offset.toNat := by
  have low := getBit (flagFits h) w 0
  rw [h.single, UInt32.toNat_one] at low
  have whole : f.get w = if w.toNat.testBit f.offset.toNat then 1 else 0 := by
    apply wordExt
    intro i _
    cases i with
    | zero => rw [low]; cases w.toNat.testBit f.offset.toNat <;> rfl
    | succ i =>
      rw [getBit (flagFits h), h.single, UInt32.toNat_one]
      cases w.toNat.testBit f.offset.toNat <;> simp [Nat.testBit_succ]
  unfold flag
  rw [whole]
  cases w.toNat.testBit f.offset.toNat <;> rfl

theorem setFlagBit {f : Field} (h : IsFlag f) (w : UInt32) (b : Bool) (i : Nat) :
    (f.set w b.toUInt32).toNat.testBit i =
      if i = f.offset.toNat then b else w.toNat.testBit i := by
  rw [setBit (flagFits h)]
  by_cases here : i = f.offset.toNat
  · rw [if_pos ((flagCovers h i).mpr here), if_pos here, here, Nat.sub_self]
    cases b <;> rfl
  · rw [if_neg (fun covers => here ((flagCovers h i).mp covers)), if_neg here]

end Field

namespace Word
open DocTree.Field

theorem getSet {f : Field} {v : UInt32} (fits : f.Fits) (small : v ≤ f.maxValue) (w : Word) :
    (w.set f v).get f = v := getSetSame fits small w.raw

theorem getOther {f g : Field} (apart : Apart f g) (w : Word) (v : UInt32) :
    (w.set f v).get g = w.get g := getSetApart apart w.raw v

theorem flagSame {f : Field} (h : IsFlag f) (w : Word) (b : Bool) : (w.setFlag f b).flag f = b := by
  rw [flag, flagBit h, setFlag, set, setFlagBit h, if_pos rfl]

theorem flagOther {f g : Field} (apart : Apart f g) (w : Word) (v : UInt32) :
    (w.set f v).flag g = w.flag g := by
  unfold flag Field.flag
  rw [show g.get (w.set f v).raw = g.get w.raw from getSetApart apart w.raw v]

theorem kindOther {f : Field} (apart : Apart f Layout.kind) (w : Word) (v : UInt32) :
    (w.set f v).kind = w.kind := by
  unfold kind
  rw [show Layout.kind.get (w.set f v).raw = Layout.kind.get w.raw from
    getSetApart apart w.raw v]

theorem kindOfKind (k : Kind) : (ofKind k).kind = k := by cases k <;> decide

theorem getOfKind {f : Field} (apart : Apart Layout.kind f) (k : Kind) :
    (ofKind k).get f = 0 := by
  unfold get ofKind
  rw [getSetApart apart, Field.get, UInt32.zero_and, UInt32.zero_shiftRight]

theorem flagOfKind {f : Field} (apart : Apart Layout.kind f) (k : Kind) :
    (ofKind k).flag f = false := by
  unfold flag Field.flag
  rw [show f.get (ofKind k).raw = 0 from getOfKind apart k]
  rfl

end Word

structure Cache.Sound (c : Cache) : Prop where
  valid : c.valid.IsFlag
  value : c.value.IsFlag
  busy : c.busy.IsFlag
  validValue : c.valid.Apart c.value
  validBusy : c.valid.Apart c.busy
  valueBusy : c.value.Apart c.busy
  kindValid : Layout.kind.Apart c.valid
  kindValue : Layout.kind.Apart c.value
  kindBusy : Layout.kind.Apart c.busy

theorem textCacheSound : Layout.textCache.Sound := by constructor <;> decide
theorem paragraphCacheSound : Layout.paragraphCache.Sound := by constructor <;> decide

namespace Word
open DocTree.Field

/-- What a cache's flags may be between operations, for content that comes out as
`fresh`. -/
structure Holds (c : Cache) (fresh : Bool) (w : Word) : Prop where
  idle : w.flag c.busy = false
  unset : w.flag c.valid = false → w.flag c.value = false
  right : w.flag c.valid = true → w.flag c.value = fresh

theorem readingCompute {c : Cache} {w : Word} :
    w.reading c = .compute ↔ w.flag c.valid = false ∧ w.flag c.busy = false := by
  unfold reading flag
  cases c.valid.flag w.raw <;> cases c.busy.flag w.raw <;> simp

theorem readingWait {c : Cache} {w : Word} :
    w.reading c = .wait ↔ w.flag c.valid = false ∧ w.flag c.busy = true := by
  unfold reading flag
  cases c.valid.flag w.raw <;> cases c.busy.flag w.raw <;> simp

theorem publishSets {c : Cache} (sound : c.Sound) {w : Word} (valid : w.flag c.valid = false)
    (value : w.flag c.value = false) (busy : w.flag c.busy = false) (b : Bool) :
    (w.claim c).publish c b = (w.setFlag c.value b).setFlag c.valid true := by
  unfold flag at valid value busy
  rw [flagBit sound.valid] at valid
  rw [flagBit sound.value] at value
  rw [flagBit sound.busy] at busy
  unfold claim publish setFlag set
  congr 1
  apply wordExt
  intro i _
  rw [setFlagBit sound.valid, setFlagBit sound.value]
  simp only [UInt32.toNat_xor, UInt32.toNat_or, Nat.testBit_xor, Nat.testBit_or,
    maskBit (flagFits sound.busy), maskBit (flagFits sound.valid), flagCovers sound.busy,
    flagCovers sound.valid]
  have mask : (if b then c.value.mask else 0).toNat.testBit i =
      (b && decide (i = c.value.offset.toNat)) := by
    cases b <;> simp [maskBit (flagFits sound.value), flagCovers sound.value]
  rw [mask]
  have offsets (f g : Field) (left : f.IsFlag) (right : g.IsFlag) (apart : f.Apart g) :
      f.offset.toNat ≠ g.offset.toNat := by
    intro same
    exact apartCovers apart ((flagCovers left _).mpr rfl) ((flagCovers right _).mpr same)
  have validValue := offsets _ _ sound.valid sound.value sound.validValue
  have validBusy := offsets _ _ sound.valid sound.busy sound.validBusy
  have valueBusy := offsets _ _ sound.value sound.busy sound.valueBusy
  by_cases atValid : i = c.valid.offset.toNat
  · subst atValid
    simp [validValue, validBusy, valid]
  by_cases atValue : i = c.value.offset.toNat
  · subst atValue
    simp [atValid, valueBusy, value]
  by_cases atBusy : i = c.busy.offset.toNat
  · subst atBusy
    simp [atValid, atValue, busy]
  · simp [atValid, atValue, atBusy]

def filled (c : Cache) (fresh : Bool) (w : Word) : Word :=
  if w.flag c.valid then w else (w.setFlag c.value fresh).setFlag c.valid true

theorem filledValid {c : Cache} (sound : c.Sound) (fresh : Bool) (w : Word) :
    (w.filled c fresh).flag c.valid = true := by
  unfold filled
  split
  · assumption
  · exact flagSame sound.valid _ true

theorem filledOther {c : Cache} {g : Field} (valid : c.valid.Apart g) (value : c.value.Apart g)
    (fresh : Bool) (w : Word) :
    (w.filled c fresh).get g = w.get g := by
  unfold filled
  split
  · rfl
  · unfold setFlag
    rw [getOther valid, getOther value]

theorem filledFlag {c : Cache} {g : Field} (valid : c.valid.Apart g) (value : c.value.Apart g)
    (fresh : Bool) (w : Word) :
    (w.filled c fresh).flag g = w.flag g :=
  congrArg (· != 0) (filledOther valid value fresh w)

theorem filledKind {c : Cache} (sound : c.Sound) (fresh : Bool) (w : Word) :
    (w.filled c fresh).kind = w.kind := by
  unfold filled
  split
  · rfl
  · unfold setFlag
    rw [kindOther (apartSymm sound.kindValid), kindOther (apartSymm sound.kindValue)]

theorem filledValue {c : Cache} {fresh : Bool} (sound : c.Sound) {w : Word}
    (h : w.Holds c fresh) : (w.filled c fresh).flag c.value = fresh := by
  unfold filled
  split
  · exact h.right (by assumption)
  · unfold setFlag
    rw [flagOther sound.validValue]
    exact flagSame sound.value w fresh

theorem filledHolds {c : Cache} {fresh : Bool} (sound : c.Sound) {w : Word}
    (h : w.Holds c fresh) : (w.filled c fresh).Holds c fresh := by
  refine ⟨?_, ?_, fun _ => filledValue sound h⟩
  · rw [filledFlag sound.validBusy sound.valueBusy]
    exact h.idle
  · intro unset
    rw [filledValid sound] at unset
    contradiction

theorem filledCached {c : Cache} {fresh : Bool} (sound : c.Sound) {w : Word}
    (h : w.Holds c fresh) : (w.filled c fresh).cached? c = some fresh := by
  have valid := filledValid sound fresh w
  have value := filledValue sound h
  unfold flag at valid value
  simp [cached?, valid, value]

def readFlag (c : Cache) (computed : Bool) (w : Word) : Run (Bool × Word) := do
  let (value, _, next) ← w.readCache c (fun s : Unit => .ok (computed, s)) ()
  return (value, next)

def computations (c : Cache) (w : Word) : Nat :=
  match w.readCache c (fun count => .ok (true, count + 1)) 0 with
  | .ok (_, count, _) => count
  | .error _ => 0

theorem cachedReading {c : Cache} {fresh : Bool} {w : Word} (h : w.Holds c fresh) :
    w.cached? c = none ∧ w.reading c = .compute ∨
      w.cached? c = some fresh ∧ w.reading c = .answer fresh := by
  have idle := h.idle
  have right := h.right
  unfold flag at idle right
  cases valid : c.valid.flag w.raw with
  | false => simp [cached?, reading, valid, idle]
  | true => simp [cached?, reading, valid, right valid]

theorem cachedUnset {c : Cache} {w : Word} : w.cached? c = none ↔ w.flag c.valid = false := by
  unfold cached? flag
  cases c.valid.flag w.raw <;> simp

theorem filledSet {c : Cache} {w : Word} (fresh : Bool) (set : w.cached? c ≠ none) :
    w.filled c fresh = w := by
  rw [Ne, cachedUnset, Bool.not_eq_false] at set
  simp only [filled, set, if_true]

section

variable {σ : Type} {compute : σ → Run (Bool × σ)} {c : Cache} {fresh : Bool} {w : Word}

theorem readSet (h : w.Holds c fresh) (set : w.cached? c ≠ none) (s : σ) :
    w.readCache c compute s = .ok (fresh, s, w) := by
  rcases cachedReading h with ⟨unset, _⟩ | ⟨_, reading⟩
  · exact absurd unset set
  · rw [readCache, reading]

theorem readUnset (sound : c.Sound) (h : w.Holds c fresh) (unset : w.cached? c = none)
    {s next : σ} (computed : compute s = .ok (fresh, next)) :
    w.readCache c compute s = .ok (fresh, next, w.filled c fresh) := by
  rcases cachedReading h with ⟨_, reading⟩ | ⟨set, _⟩
  · have valid := cachedUnset.mp unset
    have published := publishSets sound valid (h.unset valid) h.idle fresh
    simp only [readCache, reading, filled, valid, ← published]
    exact bindOk.mpr ⟨_, computed, rfl⟩
  · cases unset.symm.trans set

end

theorem holdsNew {c : Cache} (sound : c.Sound) (k : Kind) (fresh : Bool) :
    (ofKind k).Holds c fresh := by
  refine ⟨flagOfKind sound.kindBusy k, fun _ => flagOfKind sound.kindValue k, ?_⟩
  intro valid
  rw [flagOfKind sound.kindValid] at valid
  contradiction

theorem holdsOther {c : Cache} {f : Field} {fresh : Bool} (valid : f.Apart c.valid)
    (value : f.Apart c.value) (busy : f.Apart c.busy) {w : Word} (h : w.Holds c fresh)
    (v : UInt32) : (w.set f v).Holds c fresh := by
  constructor
  · rw [flagOther busy]
    exact h.idle
  · rw [flagOther valid, flagOther value]
    exact h.unset
  · rw [flagOther valid, flagOther value]
    exact h.right

theorem cachedOther {c : Cache} {f : Field} (valid : f.Apart c.valid)
    (value : f.Apart c.value) (w : Word) (v : UInt32) :
    (w.set f v).cached? c = w.cached? c := by
  have sameValid := flagOther valid w v
  have sameValue := flagOther value w v
  unfold flag at sameValid sameValue
  simp only [cached?, sameValid, sameValue]

end Word
end DocTree
