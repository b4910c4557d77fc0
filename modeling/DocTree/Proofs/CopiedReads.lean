import DocTree.Node.Whitespace
import DocTree.Proofs.Cache

/-! Reads of copied words. A copy keeps the flags of a computation that is still running, but what
that computation publishes goes to the original, so whoever reads such a copy waits forever. All
other copies can be read, and answer what is cached or what the reader computes. -/
namespace DocTree

namespace Word
open DocTree.Field

variable {c : Cache} {computed : Bool} {w : Word}

/-- The loop of a reader on a word that nobody else writes. In each round its exchange may be
refused, as weak exchanges may be with nobody else there. -/
def looks (c : Cache) (computed : Bool) (w : Word) : List Bool → Option (Bool × Word)
  | [] => none
  | refused :: rounds =>
    match w.reading c with
    | .answer value => some (value, w)
    | .wait => w.looks c computed rounds
    | .compute =>
      if refused then w.looks c computed rounds
      else some (computed, (w.claim c).publish c computed)

structure Waits (c : Cache) (w : Word) : Prop where
  unset : w.flag c.valid = false
  busy : w.flag c.busy = true

theorem waitsReading : w.reading c = .wait ↔ w.Waits c :=
  readingWait.trans ⟨fun h => ⟨h.1, h.2⟩, fun h => ⟨h.unset, h.busy⟩⟩

theorem waitsNot : ¬ w.Waits c ↔ w.flag c.busy = false ∨ w.flag c.valid = true := by
  rw [← waitsReading, readingWait]
  cases w.flag c.valid <;> cases w.flag c.busy <;> simp

theorem readFlagReading : w.readFlag c computed = match w.reading c with
    | .answer value => .ok (value, w)
    | .wait => .error .blocked
    | .compute => .ok (computed, (w.claim c).publish c computed) := by
  unfold readFlag readCache
  cases w.reading c <;> rfl

theorem readBlocked : w.readFlag c computed = .error .blocked ↔ w.Waits c := by
  rw [← waitsReading, readFlagReading]
  cases w.reading c <;> simp

theorem looksWaiting (waits : w.Waits c) (rounds : List Bool) :
    w.looks c computed rounds = none := by
  induction rounds with
  | nil => rfl
  | cons refused rounds ih => rw [looks, waitsReading.mpr waits, ih]

theorem looksRead {rounds : List Bool} {r : Bool × Word}
    (ended : w.looks c computed rounds = some r) : w.readFlag c computed = .ok r := by
  induction rounds with
  | nil => cases ended
  | cons refused rounds ih =>
    unfold looks at ended
    split at ended
    · rename_i reading
      cases ended
      rw [readFlagReading, reading]
    · exact ih ended
    · rename_i reading
      split at ended
      · exact ih ended
      · cases ended
        rw [readFlagReading, reading]

theorem looksGranted (idle : ¬ w.Waits c) {rounds : List Bool} (granted : false ∈ rounds) :
    ∃ r, w.looks c computed rounds = some r := by
  induction rounds with
  | nil => cases granted
  | cons refused rounds ih =>
    unfold looks
    split
    · exact ⟨_, rfl⟩
    · rename_i waiting
      exact absurd (waitsReading.mp waiting) idle
    · cases refused with
      | false => exact ⟨_, rfl⟩
      | true => exact ih ((List.mem_cons.mp granted).resolve_left nofun)

theorem looksEnd : (∃ rounds r, w.looks c computed rounds = some r) ↔ ¬ w.Waits c := by
  constructor
  · rintro ⟨rounds, r, ended⟩ waits
    rw [looksWaiting waits] at ended
    cases ended
  · exact fun idle => ⟨[false], looksGranted idle List.mem_cons_self⟩

theorem looksReads {r : Bool × Word} :
    (∃ rounds, w.looks c computed rounds = some r) ↔ w.readFlag c computed = .ok r := by
  constructor
  · exact fun ⟨_, ended⟩ => looksRead ended
  · intro done
    have idle : ¬ w.Waits c := fun waits => by
      rw [readBlocked.mpr waits] at done
      cases done
    have granted : ∃ u, w.looks c computed [false] = some u :=
      looksGranted idle (List.mem_singleton_self false)
    obtain ⟨u, ended⟩ := granted
    have same := (looksRead ended).symm.trans done
    exact ⟨_, ended.trans (congrArg _ (Except.ok.inj same))⟩

theorem readAnswer {value : Bool} {u : Word} (done : w.readFlag c computed = .ok (value, u)) :
    value = (w.cached? c).getD computed := by
  rw [readFlagReading, reading] at done
  unfold cached?
  generalize c.valid.flag w.raw = valid, c.busy.flag w.raw = busy at done ⊢
  cases valid with
  | true =>
    cases done
    rfl
  | false =>
    cases busy with
    | true => cases done
    | false =>
      cases done
      rfl

theorem claimWaits (sound : c.Sound) (first : w.reading c = .compute) : (w.claim c).Waits c := by
  obtain ⟨unset, idle⟩ := readingCompute.mp first
  have beside := apartCovers sound.validBusy ((flagCovers sound.valid _).mpr rfl)
  unfold flag at unset idle
  rw [flagBit sound.valid] at unset
  constructor
  · rw [claim, flag, flagBit sound.valid, UInt32.toNat_or, Nat.testBit_or, unset,
      maskBit (flagFits sound.busy), decide_eq_false beside]
    rfl
  · rw [claim, flag, flagBit sound.busy, UInt32.toNat_or, Nat.testBit_or,
      maskBit (flagFits sound.busy), decide_eq_true ((flagCovers sound.busy _).mpr rfl),
      Bool.or_true]

theorem publishedReading (sound : c.Sound) (first : w.reading c = .compute)
    (unset : w.flag c.value = false) (computed : Bool) :
    ((w.claim c).publish c computed).reading c = .answer computed := by
  obtain ⟨invalid, idle⟩ := readingCompute.mp first
  rw [publishSets sound invalid unset idle]
  have valid := flagSame sound.valid (w.setFlag c.value computed) true
  have value : ((w.setFlag c.value computed).setFlag c.valid true).flag c.value = computed :=
    (flagOther sound.validValue _ _).trans (flagSame sound.value w computed)
  unfold flag at valid value
  rw [reading, if_pos valid, value]

structure CopyReads (c : Cache) (w : Word) : Prop where
  reads {computed : Bool} {r : Bool × Word} :
    (∃ rounds, w.copy.looks c computed rounds = some r) ↔ w.copy.readFlag c computed = .ok r
  ends (computed : Bool) : (∃ rounds r, w.copy.looks c computed rounds = some r) ↔
    w.flag c.busy = false ∨ w.flag c.valid = true
  granted (computed : Bool) {rounds : List Bool} (granted : false ∈ rounds)
      (readable : w.flag c.busy = false ∨ w.flag c.valid = true) :
    ∃ r, w.copy.looks c computed rounds = some r
  answers {computed value : Bool} {rounds : List Bool} {u : Word}
      (ended : w.copy.looks c computed rounds = some (value, u)) :
    value = (w.cached? c).getD computed
  running (first : w.reading c = .compute) (computed : Bool) (rounds : List Bool) :
    (w.claim c).copy.looks c computed rounds = none
  published (first : w.reading c = .compute) (unset : w.flag c.value = false)
      (computed other : Bool) :
    ((w.claim c).publish c computed).readFlag c other =
      .ok (computed, (w.claim c).publish c computed)

theorem copyReads (sound : c.Sound) (w : Word) : CopyReads c w where
  reads := looksReads
  ends _ := looksEnd.trans waitsNot
  granted _ _ granted readable := looksGranted (waitsNot.mpr readable) granted
  answers ended := readAnswer (looksRead ended)
  running first _ := looksWaiting (claimWaits sound first)
  published first unset computed other := by
    rw [readFlagReading, publishedReading sound first unset computed]

end Word

namespace Text

def copy (t : Text) : Text := { t with header := { t.header with word := t.header.word.copy } }

theorem copyBlocked (t : Text) :
    t.copy.readBlank = .error .blocked ↔ t.header.word.Waits Layout.textCache := by
  rw [← Word.waitsReading, readBlank, Word.readCache]
  show _ ↔ t.copy.header.word.reading Layout.textCache = .wait
  cases t.copy.header.word.reading Layout.textCache with
  | wait => exact iff_of_true rfl rfl
  | answer | compute =>
    exact iff_of_false (fun answered => by cases answered) fun read => by cases read

end Text

theorem copiesRead (w : Word) (t : Text) :
    (∀ c ∈ [Layout.textCache, Layout.paragraphCache], w.CopyReads c) ∧
    (t.copy.readBlank = .error .blocked ↔ t.header.word.Waits Layout.textCache) := by
  refine ⟨?_, t.copyBlocked⟩
  simp only [List.forall_mem_cons, List.not_mem_nil, false_implies, implies_true, and_true]
  exact ⟨w.copyReads textCacheSound, w.copyReads paragraphCacheSound⟩

theorem claimedCopied : (Word.ofKind .text).reading Layout.textCache = .compute ∧
    ((Word.ofKind .text).copy.looks Layout.textCache true [true, false] = some (true, ⟨1537⟩)) ∧
    (((Word.ofKind .text).claim Layout.textCache).copy.looks Layout.textCache true [true, false] =
      none) ∧
    ∀ other, Word.readFlag Layout.textCache other ⟨1537⟩ = .ok (true, ⟨1537⟩) := by
  have first : (Word.ofKind .text).reading Layout.textCache = .compute := by decide
  have text := (copiesRead (.ofKind .text) (.make .invalid .invalid "")).1 Layout.textCache
    List.mem_cons_self
  have published : ((Word.ofKind .text).claim Layout.textCache).publish Layout.textCache true =
      ⟨1537⟩ := by decide
  exact ⟨first, by decide, text.running first true _,
    fun other => published ▸ text.published first (by decide) true other⟩

theorem busyCopied :
    ((Word.ofKind .text).claim Layout.textCache).copy = ⟨2049⟩ ∧
    Word.flag Layout.textWhitespaceBusy ⟨2049⟩ = true ∧
    Word.flag Layout.textWhitespaceValid ⟨2049⟩ = false ∧
    ∀ computed rounds, Word.looks Layout.textCache computed ⟨2049⟩ rounds = none :=
  ⟨by decide, by decide, by decide, fun _ => Word.looksWaiting ⟨by decide, by decide⟩⟩

end DocTree
