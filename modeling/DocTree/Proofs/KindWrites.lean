import DocTree.Proofs.FieldLaws

/-! What a checked run does to the kind in a word. A write to a field that has a bit of the kind is
refused. A first read of a cache is not guarded: it turns the bits it publishes, and with them the
kind, exactly if a bit of the kind is among them and is not in the busy field as well. A first read
that ends in a fault before it publishes leaves the bits of the busy field turned. -/
namespace DocTree

theorem bindError {α β : Type} {x : Run α} {f : α → Run β} {fault : Fault} :
    x >>= f = .error fault ↔ x = .error fault ∨ ∃ a, x = .ok a ∧ f a = .error fault := by
  cases x with
  | error stopped => exact ⟨fun h => .inl (congrArg _ (Except.error.inj h)), fun h =>
      h.elim (fun same => same ▸ rfl) nofun⟩
  | ok a => exact ⟨fun h => .inr ⟨a, rfl, h⟩, fun h => h.elim nofun fun ⟨_, same, h⟩ =>
      Except.ok.inj same ▸ h⟩

theorem demandError {m : Mode} {holds : Bool} {fault stopped : Fault}
    (h : m.demand holds fault = .error stopped) : stopped = fault := by
  cases m <;> cases holds <;> cases h
  rfl

namespace Field

variable {f : Field}

theorem maskChecked (f : Field) :
    f.guardMask .checked = if f.Guarded then .ok () else .error .shiftOverflow := by
  have bounds : f.Guarded ↔ f.width < 64 ∧ f.offset < 32 := by
    rw [UInt32.lt_iff_toNat_lt, UInt32.lt_iff_toNat_lt]
    exact ⟨fun guarded => ⟨guarded.narrow, guarded.inside⟩, fun ⟨narrow, inside⟩ =>
      ⟨inside, narrow⟩⟩
  unfold guardMask guardMaxValue Mode.demand
  simp only [bounds, decide_eq_true_iff]
  by_cases narrow : f.width < 64
  · by_cases inside : f.offset < 32
    · rw [if_pos narrow, if_pos inside, if_pos ⟨narrow, inside⟩]
      rfl
    · have refused : ¬ (f.width < 64 ∧ f.offset < 32) := fun both => inside both.2
      rw [if_pos narrow, if_neg inside, if_neg refused]
      rfl
  · have refused : ¬ (f.width < 64 ∧ f.offset < 32) := fun both => narrow both.1
    rw [if_neg narrow, if_neg refused]
    rfl

theorem maskFault {m : Mode} {fault : Fault} (stopped : f.guardMask m = .error fault) :
    fault = .shiftOverflow := by
  rcases bindError.mp stopped with narrow | ⟨_, _, inside⟩
  · exact demandError narrow
  · exact demandError inside

theorem setFaults {m : Mode} {w v : UInt32} {fault : Fault}
    (stopped : f.setIn m w v = .error fault) :
    fault = .shiftOverflow ∨ fault = .valueTooWide v f.width := by
  unfold setIn guardSet guardMaxValue at stopped
  simp only [bindError] at stopped
  obtain (narrow | ⟨_, _, wide | ⟨_, _, masked⟩⟩) | ⟨_, _, none⟩ := stopped
  · exact .inl (demandError narrow)
  · exact .inr (demandError wide)
  · exact .inl (maskFault masked)
  · cases none

theorem setBeyond (guarded : f.Guarded) (w v : UInt32) {i : Nat} (inside : i < 32)
    (outside : ¬ f.Covers i) : (f.set w v).toNat.testBit i = w.toNat.testBit i := by
  unfold set
  rw [UInt32.toNat_or, Nat.testBit_or, UInt32.toNat_and, Nat.testBit_and, UInt32.toNat_and,
    Nat.testBit_and, notBit, maskCut guarded]
  simp [outside, inside]

theorem clearBits (guarded : f.Guarded) {w : UInt32} (clear : f.flag w = false) {i : Nat}
    (inside : i < 32) (covers : f.Covers i) : w.toNat.testBit i = false := by
  have none : f.get w = 0 := by simpa [flag] using clear
  have place : f.offset.toNat + (i - f.offset.toNat) = i := Nat.add_sub_of_le covers.1
  have bit := getCut guarded w (i - f.offset.toNat)
  rw [none, place, decide_eq_true ⟨inside, covers⟩, Bool.and_true] at bit
  exact bit.symm.trans (Nat.zero_testBit _)

end Field

namespace Cache

/-- The bits that a first read turns: those it publishes, but for those that it sets beforehand in
order to claim the cache. -/
def Turns (c : Cache) (computed : Bool) (i : Nat) : Prop :=
  (c.valid.Covers i ∨ computed = true ∧ c.value.Covers i) ∧ ¬ c.busy.Covers i

instance (c computed i) : Decidable (Turns c computed i) := inferInstanceAs (Decidable (_ ∧ _))

end Cache

namespace Word
open DocTree.Field

def kindNumber (w : Word) : UInt32 := Layout.kind.get w.raw

theorem kindOfNumber {w u : Word} (same : u.kindNumber = w.kindNumber) : u.kind = w.kind := by
  rw [kind, show Layout.kind.get u.raw = Layout.kind.get w.raw from same, kind]

theorem numberBits {w u : Word} : u.kindNumber = w.kindNumber ↔
    ∀ i < 8, u.raw.toNat.testBit i = w.raw.toNat.testBit i := by
  have fits : Layout.kind.Fits := by decide
  have bit (v : Word) (i : Nat) : v.kindNumber.toNat.testBit i =
      (decide (i < 8) && v.raw.toNat.testBit i) := by
    rw [kindNumber, getBit fits, show Layout.kind.offset.toNat = 0 from rfl, Nat.zero_add]
    rfl
  constructor
  · intro same i low
    have bits := bit u i
    rwa [same, bit w i, decide_eq_true low, Bool.true_and, Bool.true_and, eq_comm] at bits
  · refine fun low => wordExt fun i _ => ?_
    rw [bit, bit]
    by_cases inside : i < 8
    · rw [low i inside]
    · rw [decide_eq_false inside, Bool.false_and, Bool.false_and]

structure Claims (c : Cache) (w : Word) : Prop where
  reading : w.reading c = .compute
  valid : c.valid.Guarded
  busy : c.busy.Guarded

def Turned (w : Word) : Action → Nat → Prop
  | .readCache c computed, i => w.Claims c ∧
      if computed = true → c.value.Guarded then c.Turns computed i else c.busy.Covers i
  | _, _ => False

def TurnsKind (w : Word) (action : Action) : Prop := ∃ i < 8, w.Turned action i

def trail (m : Mode) (w : Word) : List Action → List (Word × Action)
  | [] => []
  | action :: rest => (w, action) :: trail m (w.step m action).2 rest

theorem kindCovers (i : Nat) : Layout.kind.Covers i ↔ i < 8 := by simp [Covers, Layout.kind]

theorem kindOverlaps {f : Field} (guarded : f.Guarded) :
    f.overlaps Layout.kind = true ↔ ∃ i < 8, f.Covers i := by
  rw [overlapsCut guarded (fitsGuarded (by decide))]
  simp only [kindCovers]
  exact ⟨fun ⟨i, _, covers, low⟩ => ⟨i, low, covers⟩, fun ⟨i, low, covers⟩ =>
    ⟨i, by omega, covers, low⟩⟩

theorem setChecked (f : Field) (v : UInt32) (w : Word) : w.setIn .checked f v =
    if f.Guarded then
      if f.overlaps Layout.kind then .error .kindImmutable
      else do return ⟨← f.setIn .checked w.raw v⟩
    else .error .shiftOverflow := by
  have kind : Layout.kind.Guarded := fitsGuarded (by decide)
  unfold setIn overlapsIn
  rw [maskChecked, maskChecked, if_pos kind]
  by_cases guarded : f.Guarded
  · rw [if_pos guarded, if_pos guarded]
    cases f.overlaps Layout.kind <;> rfl
  · rw [if_neg guarded, if_neg guarded]
    rfl

theorem setLow {f : Field} {v : UInt32} {w u : Word} (done : w.setIn .checked f v = .ok u) {i : Nat}
    (low : i < 8) : u.raw.toNat.testBit i = w.raw.toNat.testBit i := by
  rw [setChecked] at done
  split at done
  · rename_i guarded
    split at done
    · cases done
    · rename_i beside
      obtain ⟨_, written, same⟩ := bindOk.mp done
      obtain ⟨_, _, written⟩ := bindOk.mp written
      cases written
      cases same
      exact setBeyond guarded _ _ (by omega) fun covers =>
        beside ((kindOverlaps guarded).mpr ⟨i, low, covers⟩)
  · cases done

theorem setRefused {f : Field} (whole : f.offset.toNat + f.width.toNat ≤ 32) (v : UInt32)
    (w : Word) : w.setIn .checked f v = .error .kindImmutable ↔ ∃ i < 8, f.Covers i := by
  rw [setChecked]
  split
  · rename_i guarded
    rw [← kindOverlaps guarded]
    split
    · exact iff_of_true rfl ‹_›
    · refine iff_of_false (fun refused => ?_) ‹_›
      rcases bindError.mp refused with stopped | ⟨_, _, answered⟩
      · exact (setFaults stopped).elim nofun nofun
      · cases answered
  · rename_i unguarded
    refine iff_of_false nofun fun ⟨i, low, covers⟩ => unguarded ⟨?_, ?_⟩
    all_goals unfold Covers at covers; omega

theorem claimBit {c : Cache} {w : Word} (claims : w.Claims c) {i : Nat} (inside : i < 32) :
    (w.claim c).raw.toNat.testBit i = (w.raw.toNat.testBit i ^^ decide (c.busy.Covers i)) := by
  have idle : c.busy.flag w.raw = false := (readingCompute.mp claims.reading).2
  rw [claim, UInt32.toNat_or, Nat.testBit_or, maskCut claims.busy]
  by_cases claimed : c.busy.Covers i
  · simp [claimed, inside, clearBits claims.busy idle inside claimed]
  · simp [claimed]

theorem publishBit {c : Cache} {computed : Bool} {w : Word} (claims : w.Claims c)
    (value : computed = true → c.value.Guarded) {i : Nat} (inside : i < 32) :
    ((w.claim c).publish c computed).raw.toNat.testBit i =
      (w.raw.toNat.testBit i ^^ decide (c.Turns computed i)) := by
  have stored : (if computed then c.value.mask else 0).toNat.testBit i =
      decide (computed = true ∧ c.value.Covers i) := by
    cases computed
    · simp
    · simp [maskCut (value rfl), inside]
  unfold publish Cache.Turns
  rw [UInt32.toNat_xor, Nat.testBit_xor, claimBit claims inside, UInt32.toNat_or, Nat.testBit_or,
    UInt32.toNat_or, Nat.testBit_or, maskCut claims.busy, maskCut claims.valid, stored]
  -- what the claim turns is turned back
  by_cases claimed : c.busy.Covers i
  · simp [claimed, inside]
  · simp [claimed, inside]

inductive ClaimOutcome (c : Cache) (w : Word) : Run (Option Bool × Word) → Prop where
  | cached (value : Bool) (unclaimed : ¬ w.Claims c) : ClaimOutcome c w (.ok (some value, w))
  | claimed (claims : w.Claims c) : ClaimOutcome c w (.ok (none, w.claim c))
  | stopped {fault : Fault} (way : fault = .shiftOverflow ∨ fault = .blocked)
      (unclaimed : ¬ w.Claims c) : ClaimOutcome c w (.error fault)

theorem outcomeGuard {c : Cache} {w : Word} {f : Field} {next : Unit → Run (Option Bool × Word)}
    (refused : ¬ f.Guarded → ¬ w.Claims c) (passed : f.Guarded → ClaimOutcome c w (next ())) :
    ClaimOutcome c w (f.guardMask .checked >>= next) := by
  rw [maskChecked]
  split
  · exact passed ‹_›
  · exact .stopped (.inl rfl) (refused ‹_›)

theorem claimOutcome (c : Cache) (w : Word) : ClaimOutcome c w (w.claimIn .checked c) := by
  unfold claimIn
  refine outcomeGuard (fun invalid claims => invalid claims.valid) fun valid => ?_
  cases reading : w.reading c with
  | answer value =>
    have unclaimed (claims : w.Claims c) : False := by cases reading.symm.trans claims.reading
    exact outcomeGuard (fun _ => unclaimed) fun _ => .cached value unclaimed
  | wait =>
    have unclaimed (claims : w.Claims c) : False := by cases reading.symm.trans claims.reading
    exact outcomeGuard (fun _ => unclaimed) fun _ => .stopped (.inr rfl) unclaimed
  | compute =>
    exact outcomeGuard (fun unguarded claims => unguarded claims.busy) fun busy =>
      .claimed ⟨reading, valid, busy⟩

inductive ReadOutcome (c : Cache) (computed : Bool) (w : Word) :
    Except Fault Answer × Word → Prop where
  | cached (value : Bool) (unclaimed : ¬ w.Claims c) :
    ReadOutcome c computed w (.ok (.read value 0), w)
  | first (claims : w.Claims c) (value : computed = true → c.value.Guarded) :
    ReadOutcome c computed w (.ok (.read computed 1), (w.claim c).publish c computed)
  | abandoned (claims : w.Claims c) (value : ¬ (computed = true → c.value.Guarded)) :
    ReadOutcome c computed w (.error .shiftOverflow, w.claim c)
  | stopped {fault : Fault} (way : fault = .shiftOverflow ∨ fault = .blocked)
      (unclaimed : ¬ w.Claims c) : ReadOutcome c computed w (.error fault, w)

theorem publishChecked (c : Cache) (computed : Bool) (w : Word) :
    w.publishIn .checked c computed = if computed = true → c.value.Guarded
      then .ok (w.publish c computed) else .error .shiftOverflow := by
  unfold publishIn
  cases computed with
  | false => rfl
  | true =>
    simp only [forall_const, if_true, maskChecked]
    split <;> rfl

theorem readOutcome (c : Cache) (computed : Bool) (w : Word) :
    ReadOutcome c computed w (w.step .checked (.readCache c computed)) := by
  have outcome := claimOutcome c w
  simp only [step, act, left, readCacheIn]
  generalize w.claimIn .checked c = claim at outcome ⊢
  cases outcome with
  | cached value unclaimed => exact .cached value unclaimed
  | stopped way unclaimed => exact .stopped way unclaimed
  | claimed claims =>
    simp only [bind, Except.bind, publishChecked]
    split_ifs with value
    · exact .first claims value
    · exact .abandoned claims value

theorem readTurned (c : Cache) (computed : Bool) (w : Word) {i : Nat} (low : i < 8) :
    (w.step .checked (.readCache c computed)).2.raw.toNat.testBit i = w.raw.toNat.testBit i ↔
      ¬ w.Turned (.readCache c computed) i := by
  have outcome := readOutcome c computed w
  generalize w.step .checked (.readCache c computed) = result at outcome ⊢
  rw [Turned]
  cases outcome with
  | cached _ unclaimed => exact iff_of_true rfl fun turned => unclaimed turned.1
  | stopped _ unclaimed => exact iff_of_true rfl fun turned => unclaimed turned.1
  | first claims value =>
    rw [publishBit claims value (by omega), if_pos value]
    cases w.raw.toNat.testBit i <;> simp [claims]
  | abandoned claims value =>
    rw [claimBit claims (by omega), if_neg value]
    cases w.raw.toNat.testBit i <;> simp [claims]

theorem stepBit {action : Action} {w : Word} {i : Nat} (left : w.left .checked action = w)
    (done : ∀ {answer u}, w.act .checked action = .ok (answer, u) →
      u.raw.toNat.testBit i = w.raw.toNat.testBit i) :
    (w.step .checked action).2.raw.toNat.testBit i = w.raw.toNat.testBit i := by
  unfold step
  cases acted : w.act .checked action with
  | ok result => exact done acted
  | error fault => exact congrArg (·.raw.toNat.testBit i) left

theorem stepLow (action : Action) (w : Word) {i : Nat} (low : i < 8) :
    (w.step .checked action).2.raw.toNat.testBit i = w.raw.toNat.testBit i ↔
      ¬ w.Turned action i := by
  cases action with
  | readCache c computed => exact readTurned c computed w low
  | set | setFlag =>
    refine iff_of_true (stepBit rfl fun done => ?_) id
    obtain ⟨_, written, same⟩ := bindOk.mp done
    cases same
    exact setLow written low
  | get | flag | cached =>
    refine iff_of_true (stepBit rfl fun done => ?_) id
    obtain ⟨_, _, same⟩ := bindOk.mp done
    cases same
    rfl
  | copy => exact iff_of_true rfl id

theorem stepNumber (action : Action) (w : Word) :
    (w.step .checked action).2.kindNumber = w.kindNumber ↔ ¬ w.TurnsKind action := by
  rw [numberBits, TurnsKind, not_exists]
  refine forall_congr' fun i => ?_
  rw [not_and]
  exact forall_congr' fun low => stepLow action w low

theorem runNumber (actions : List Action) (w : Word) :
    (∀ e ∈ w.run .checked actions, e.2.kindNumber = w.kindNumber) ↔
      ∀ e ∈ w.trail .checked actions, ¬ e.1.TurnsKind e.2 := by
  induction actions generalizing w with
  | nil => simp [run, trail]
  | cons action rest ih =>
    rw [run, trail, List.forall_mem_cons, List.forall_mem_cons, stepNumber]
    refine and_congr_right fun kept => ?_
    rw [← ih, (stepNumber action w).mpr kept]

theorem besideUnturned {c : Cache} (valid : c.valid.Apart Layout.kind)
    (value : c.value.Apart Layout.kind) {computed : Bool} {w : Word} :
    ¬ w.TurnsKind (.readCache c computed) := by
  rintro ⟨i, low, _, turned⟩
  have kind := (kindCovers i).mpr low
  rw [if_pos fun _ => fitsGuarded value.left] at turned
  rcases turned.1 with covers | ⟨_, covers⟩
  · exact apartCovers valid covers kind
  · exact apartCovers value covers kind

structure KindLaws (w : Word) : Prop where
  kept (actions : List Action) :
    (∀ e ∈ w.run .checked actions, e.2.kindNumber = w.kindNumber) ↔
      ∀ e ∈ w.trail .checked actions, ¬ e.1.TurnsKind e.2
  setRefused {f : Field} (whole : f.offset.toNat + f.width.toNat ≤ 32) (v : UInt32) :
    (w.step .checked (.set f v)).1 = .error .kindImmutable ↔ ∃ i < 8, f.Covers i
  flagRefused {f : Field} (whole : f.offset.toNat + f.width.toNat ≤ 32) (b : Bool) :
    (w.step .checked (.setFlag f b)).1 = .error .kindImmutable ↔ ∃ i < 8, f.Covers i
  readPasses (c : Cache) (computed : Bool) :
    (w.step .checked (.readCache c computed)).1 ≠ .error .kindImmutable
  beside {c : Cache} (valid : c.valid.Apart Layout.kind) (value : c.value.Apart Layout.kind)
    (computed : Bool) : ¬ w.TurnsKind (.readCache c computed)

theorem stepFault {action : Action} {w : Word} {fault : Fault} :
    (w.step .checked action).1 = .error fault ↔ w.act .checked action = .error fault := by
  unfold step
  cases w.act .checked action with
  | ok result => exact iff_of_false nofun nofun
  | error stopped => exact ⟨congrArg _ ∘ Except.error.inj, congrArg _ ∘ Except.error.inj⟩

theorem setFault {m : Mode} {f : Field} {v : UInt32} {w : Word} {fault : Fault} :
    w.act m (.set f v) = .error fault ↔ w.setIn m f v = .error fault := by
  refine bindError.trans (or_iff_left ?_)
  exact fun ⟨_, _, answered⟩ => nomatch answered

theorem readUnrefused (c : Cache) (computed : Bool) (w : Word) :
    (w.step .checked (.readCache c computed)).1 ≠ .error .kindImmutable := by
  have outcome := readOutcome c computed w
  generalize w.step .checked (.readCache c computed) = result at outcome ⊢
  intro refused
  cases outcome with
  | cached | first | abandoned => cases refused
  | stopped way =>
    cases refused
    exact way.elim nofun nofun

theorem kindLaws (w : Word) : KindLaws w where
  kept actions := runNumber actions w
  setRefused whole v := stepFault.trans (setFault.trans (w.setRefused whole v))
  flagRefused whole b := stepFault.trans (setFault.trans (w.setRefused whole b.toUInt32))
  readPasses c computed := readUnrefused c computed w
  beside valid value _ := besideUnturned valid value

theorem kindsKept (k : Kind) (w : Word) : KindLaws w ∧ ∀ actions,
    (∀ e ∈ (ofKind k).trail .checked actions, ¬ e.1.TurnsKind e.2) →
      ∀ e ∈ (ofKind k).run .checked actions, e.2.kind = k := by
  refine ⟨kindLaws w, fun actions unturned e member => ?_⟩
  have number := (runNumber actions (ofKind k)).mpr unturned e member
  exact (kindOfNumber number).trans (kindOfKind k)

def busyLine : List Action :=
  [.set Layout.kind 3, .setFlag Layout.trailingNewline true, .copy,
    .readCache Layout.textCache true]

theorem busyLineKept : (ofKind .text).run .checked busyLine =
      [(.error .kindImmutable, ⟨1⟩), (.ok .done, ⟨257⟩), (.ok .done, ⟨257⟩),
        (.ok (.read true 1), ⟨1793⟩)] ∧
    ∀ e ∈ (ofKind .text).run .checked busyLine, e.2.kind = .text := by
  refine ⟨by decide, (kindsKept .text ⟨1⟩).2 busyLine ?_⟩
  simp only [busyLine, trail, List.forall_mem_cons]
  have quiet : ¬ ∃ i < 8, False := fun ⟨_, _, h⟩ => h
  exact ⟨quiet, quiet, quiet, besideUnturned (by decide) (by decide), List.forall_mem_nil _⟩

def straying : Cache := ⟨⟨8, 1⟩, ⟨0, 1⟩, ⟨10, 1⟩⟩

theorem kindTurned : straying.valid.Fits ∧ straying.value.Fits ∧ straying.busy.Fits ∧
    (ofKind .paragraph).run .checked [.readCache straying true] = [(.ok (.read true 1), ⟨260⟩)] ∧
    kind ⟨260⟩ = .endTag := by
  decide

end Word
end DocTree
