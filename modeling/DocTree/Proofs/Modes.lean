import DocTree.Bits.Session
import DocTree.Proofs.Attributes
import DocTree.Proofs.KindViews

/-! Runs with and without checks. A check can only stop a run: as long as none does, both runs
give the same answers and come to the same state. What nodes write to their words themselves, and
what they read from them, passes every check, so no step on a node or a tree depends on the mode. -/
namespace DocTree

def Fault.isChecked : Fault → Bool
  | .addOverflow | .shiftOverflow | .valueTooWide _ _ | .kindImmutable | .paragraphContent
  | .commentContent => true
  | _ => false

inductive Stops {α : Type} (unchecked : Run α) : Run α → Prop where
  | never : Stops unchecked unchecked
  | check {fault : Fault} (checked : fault.isChecked = true) : Stops unchecked (.error fault)

abbrev Agrees {α : Type} (f : Mode → Run α) : Prop := Stops (f .unchecked) (f .checked)

section

variable {α β : Type}

theorem agreesDemand (holds : Bool) {fault : Fault} (checked : fault.isChecked = true) :
    Agrees fun m => m.demand holds fault := by
  cases holds
  · exact .check checked
  · exact .never

theorem stopsBind {x y : Run α} {f g : α → Run β} (first : Stops x y)
    (next : ∀ a, Stops (f a) (g a)) : Stops (x >>= f) (y >>= g) := by
  cases first with
  | never =>
    cases x with
    | ok a => exact next a
    | error fault => exact .never
  | check checked => exact .check checked

theorem stopsAfter {x : Run α} {a : α} {y : Run β} {g : α → Run β} (first : Stops (.ok a) x)
    (next : Stops y (g a)) : Stops y (x >>= g) := by
  cases first with
  | never => exact next
  | check checked => exact .check checked

theorem stopsOk {x : Run α} {a : α} (stops : Stops x (.ok a)) : x = .ok a := by
  cases stops
  rfl

theorem agreesOk {f : Mode → Run α} {a : α} (agrees : Agrees f) (ok : f .checked = .ok a) :
    f .unchecked = .ok a :=
  stopsOk (ok ▸ agrees)

theorem stopsSame {x y : Run α} (stops : Stops x y)
    (unstopped : ∀ fault, y = .error fault → fault.isChecked = false) : x = y := by
  cases stops with
  | never => rfl
  | check checked => exact absurd checked (by simp [unstopped])

def Unstopped {σ : Type} (answers : List (Run α × σ)) : Prop :=
  ∀ e ∈ answers, ∀ fault, e.1 = .error fault → fault.isChecked = false

theorem runsAgree {σ : Type} (step : Mode → σ → β → Run α × σ)
    (run : Mode → σ → List β → List (Run α × σ)) (nil : ∀ m s, run m s [] = [])
    (cons : ∀ m s b rest, run m s (b :: rest) = step m s b :: run m (step m s b).2 rest)
    (each : ∀ s b, (∀ fault, (step .checked s b).1 = .error fault → fault.isChecked = false) →
      step .unchecked s b = step .checked s b)
    {s : σ} {bs : List β} (unstopped : Unstopped (run .checked s bs)) :
    run .unchecked s bs = run .checked s bs := by
  induction bs generalizing s with
  | nil => rw [nil, nil]
  | cons b rest ih =>
    rw [cons, Unstopped, List.forall_mem_cons] at unstopped
    have same := each s b unstopped.1
    rw [cons, cons, same, ih unstopped.2]

end

namespace Field

theorem stopAgrees (f : Field) : Agrees f.guardStop := agreesDemand _ rfl

theorem maxValueAgrees (f : Field) : Agrees f.guardMaxValue := agreesDemand _ rfl

theorem maskAgrees (f : Field) : Agrees f.guardMask :=
  stopsBind f.maxValueAgrees fun _ => agreesDemand _ rfl

theorem setAgrees (f : Field) (value : UInt32) : Agrees (f.guardSet · value) :=
  stopsBind f.maxValueAgrees fun _ => stopsBind (agreesDemand _ rfl) fun _ => f.maskAgrees

structure Checks (f g : Field) (word value : UInt32) : Prop where
  stop : Agrees f.stopIn
  after : Agrees (f.afterIn · value)
  maxValue : Agrees f.maxValueIn
  mask : Agrees f.maskIn
  get : Agrees (f.getIn · word)
  set : Agrees (f.setIn · word value)
  overlaps : Agrees (f.overlapsIn · g)

theorem checks (f g : Field) (word value : UInt32) : Checks f g word value where
  stop := stopsBind f.stopAgrees fun _ => .never
  after := stopsBind f.stopAgrees fun _ => .never
  maxValue := stopsBind f.maxValueAgrees fun _ => .never
  mask := stopsBind f.maskAgrees fun _ => .never
  get := stopsBind f.maskAgrees fun _ => .never
  set := stopsBind (f.setAgrees value) fun _ => .never
  overlaps := stopsBind f.maskAgrees fun _ => stopsBind g.maskAgrees fun _ => .never

end Field

namespace Word
open DocTree.Field

theorem setInAgrees (f : Field) (value : UInt32) (w : Word) :
    Agrees fun m => w.setIn m f value := by
  refine stopsAfter (checks f Layout.kind w.raw value).overlaps ?_
  cases f.overlaps Layout.kind
  · exact stopsBind (checks f f w.raw value).set fun _ => .never
  · exact .check rfl

theorem cachedInAgrees (valid value : Field) (w : Word) :
    Agrees fun m => w.cachedIn m valid value := by
  refine stopsBind (checks valid valid w.raw 0).get fun known => ?_
  split
  · exact .never
  · exact stopsBind (checks value value w.raw 0).get fun _ => .never

theorem claimInAgrees (c : Cache) (w : Word) : Agrees fun m => w.claimIn m c := by
  refine stopsBind c.valid.maskAgrees fun _ => ?_
  cases w.reading c with
  | answer value => exact stopsBind c.value.maskAgrees fun _ => .never
  | wait => exact stopsBind c.busy.maskAgrees fun _ => .never
  | compute => exact stopsBind c.busy.maskAgrees fun _ => .never

theorem publishInAgrees (c : Cache) (computed : Bool) (w : Word) :
    Agrees fun m => w.publishIn m c computed := by
  cases computed with
  | false => exact .never
  | true => exact stopsBind c.value.maskAgrees fun _ => .never

theorem readCacheInAgrees (c : Cache) (computed : Bool) (w : Word) :
    Agrees fun m => w.readCacheIn m c computed := by
  refine stopsBind (w.claimInAgrees c) fun (found, claimed) => ?_
  cases found with
  | some value => exact .never
  | none => exact stopsBind (claimed.publishInAgrees c computed) fun _ => .never

theorem leftSame {action : Action} {w : Word}
    (unstopped : ∀ fault, w.act .checked action = .error fault → fault.isChecked = false) :
    w.left .unchecked action = w.left .checked action := by
  cases action with
  | readCache c computed =>
    have same : w.claimIn .unchecked c = w.claimIn .checked c :=
      stopsSame (w.claimInAgrees c) fun fault stopped => unstopped fault (by
        simp only [act, readCacheIn, stopped]
        rfl)
    simp only [left, same]
  | _ => rfl

theorem actAgrees (action : Action) (w : Word) : Agrees fun m => w.act m action := by
  cases action with
  | set f value => exact stopsBind (w.setInAgrees f value) fun _ => .never
  | setFlag f value => exact stopsBind (w.setInAgrees f value.toUInt32) fun _ => .never
  | get f => exact stopsBind (checks f f w.raw 0).get fun _ => .never
  | flag f => exact stopsBind (checks f f w.raw 0).get fun _ => .never
  | cached valid value => exact stopsBind (w.cachedInAgrees valid value) fun _ => .never
  | readCache c computed => exact w.readCacheInAgrees c computed
  | copy => exact .never

theorem runAgrees {w : Word} {actions : List Action}
    (unstopped : Unstopped (w.run .checked actions)) :
    w.run .unchecked actions = w.run .checked actions := by
  refine runsAgree step run (fun _ _ => rfl) (fun _ _ _ _ => rfl) (fun w action unstopped => ?_)
    unstopped
  have passes fault (stopped : w.act .checked action = .error fault) : fault.isChecked = false :=
    unstopped fault (by rw [step, stopped])
  have same : w.act .unchecked action = w.act .checked action :=
    stopsSame (actAgrees action w) passes
  rw [step, step, same, leftSame passes]

end Word

namespace Placed

theorem addAgrees (a b : UInt32) : Agrees fun m => add m a b :=
  stopsBind (agreesDemand _ rfl) fun _ => .never

theorem textAgrees (start : UInt32) (s : String) : Agrees fun m => text m start s :=
  stopsBind (addAgrees _ _) fun _ => .never

theorem nameAgrees (stop : UInt32) (name : String) : Agrees fun m => nameAfter m stop name := by
  unfold nameAfter
  split
  · exact .never
  · exact stopsBind (addAgrees _ _) fun _ => stopsBind (addAgrees _ _) fun _ => .never

end Placed

theorem paragraphAgrees (content : List Comment) : Agrees fun m => Paragraph.build m content :=
  stopsBind (agreesDemand _ rfl) fun _ => .never

theorem Seed.buildAgrees (t : CommandTable) (seed : Seed) : Agrees fun m => seed.build m t := by
  cases seed with
  | placedText start s => exact Placed.textAgrees start s
  | placedParagraph start s =>
    exact stopsBind (Placed.textAgrees start s) fun _ =>
      stopsBind (paragraphAgrees _) fun _ => .never
  | placedBlock start s =>
    exact stopsBind (Placed.addAgrees _ _) fun _ => stopsBind (Placed.addAgrees _ _) fun _ => .never
  | placedParam start s =>
    exact stopsBind (Placed.addAgrees _ _) fun _ => stopsBind .never fun _ =>
      stopsBind (Placed.nameAgrees _ _) fun _ => .never
  | placedTParam start s =>
    exact stopsBind (Placed.addAgrees _ _) fun _ => stopsBind .never fun _ =>
      stopsBind (Placed.nameAgrees _ _) fun _ => .never
  | _ => exact .never

-- One case for each constructor. An action goes on with the node that the one before has left, so
-- what holds of a list of actions holds for every node they may start from.
mutual

theorem draftAgrees (t : CommandTable) (d : Draft) : Agrees fun m => d.build m t := by
  cases d with
  | seed seed actions =>
    exact stopsBind (seed.buildAgrees t) fun c => actionsAgree t actions c
  | paragraph content actions =>
    exact stopsBind (draftsAgree t content) fun cs => stopsBind (paragraphAgrees cs) fun p =>
      actionsAgree t actions (.paragraph p)
termination_by structural d

theorem draftsAgree (t : CommandTable) (ds : List Draft) :
    Agrees fun m => Draft.buildAll m t ds := by
  cases ds with
  | nil => exact .never
  | cons d rest =>
    exact stopsBind (draftAgrees t d) fun _ => stopsBind (draftsAgree t rest) fun _ => .never
termination_by structural ds

theorem actionAgrees (t : CommandTable) (a : Action) (c : Comment) :
    Agrees fun m => a.act m t c := by
  cases a with
  | step step => exact .never
  | setParagraph d => exact stopsBind (draftAgrees t d) fun _ => .never
termination_by structural a

theorem actionsAgree (t : CommandTable) (as : List Action) (c : Comment) :
    Agrees fun m => Action.actAll m t as c := by
  cases as with
  | nil => exact .never
  | cons a rest =>
    exact stopsBind (actionAgrees t a c) fun next => actionsAgree t rest next.2
termination_by structural as

end

theorem blocksAgree (blocks : List Comment) (info : DeclInfo) :
    Agrees fun m => FullComment.build m blocks info :=
  stopsBind (agreesDemand _ rfl) fun _ => .never

theorem treeAgrees (t : CommandTable) (drafts : List Draft) (info : DeclInfo) :
    Agrees fun m => FullComment.ofDrafts m t drafts info :=
  stopsBind (draftsAgree t drafts) fun blocks => blocksAgree blocks info

theorem Comment.runAgrees {t : CommandTable} {c : Comment} {actions : List Action}
    (unstopped : Unstopped (c.run .checked t actions)) :
    c.run .unchecked t actions = c.run .checked t actions := by
  refine DocTree.runsAgree (step · t) (run · t) (fun _ _ => rfl) (fun _ _ _ _ => rfl)
    (fun c action unstopped => ?_) unstopped
  have same : action.act .unchecked t c = action.act .checked t c :=
    stopsSame (actionAgrees t action c) fun fault stopped => unstopped fault (by
      rw [step, stopped])
  show c.step .unchecked t action = c.step .checked t action
  rw [step, step, same]

theorem usesAgree (t : CommandTable) (u : Use) (r : Root) :
    r.use .unchecked t u = r.use .checked t u := by
  cases u with
  | inside i => cases i <;> rfl
  | _ => rfl

theorem madeUnchecked {r : Root} (made : Made .checked r) : Made .unchecked r := by
  induction made with
  | seed built => exact .seed (agreesOk (Seed.buildAgrees _ _) built)
  | paragraph _ built ih => exact .paragraph ih (agreesOk (paragraphAgrees _) built)
  | attach _ _ attached command paragraph => exact .attach command paragraph attached
  | tree _ built ih => exact .tree ih (agreesOk (blocksAgree _ _) built)
  | use _ t u ih => exact usesAgree t u _ ▸ .use ih t u
  | copy _ here ih => exact .copy ih here
  | ofBase _ ih => exact .ofBase ih
  | assign _ _ assigned target other => exact .assign target other assigned

theorem demandPasses (m : Mode) (fault : Fault) : m.demand true fault = .ok () := by
  cases m <;> rfl

namespace Field

variable {f : Field}

theorem maxValuePasses (m : Mode) (fits : f.Fits) : f.guardMaxValue m = .ok () := by
  have whole := fits.whole
  have narrow : f.width < 64 := UInt32.lt_iff_toNat_lt.mpr (by simp; omega)
  rw [guardMaxValue, decide_eq_true narrow, demandPasses]

theorem maskPasses (m : Mode) (fits : f.Fits) : f.guardMask m = .ok () := by
  have inside : f.offset < 32 := UInt32.lt_iff_toNat_lt.mpr fits.inside
  rw [guardMask, maxValuePasses m fits, decide_eq_true inside, demandPasses]
  rfl

theorem setPasses (m : Mode) (fits : f.Fits) {value : UInt32} (small : value ≤ f.maxValue) :
    f.guardSet m value = .ok () := by
  rw [guardSet, maxValuePasses m fits, maskPasses m fits, decide_eq_true small, demandPasses]
  rfl

end Field

namespace Word
open DocTree.Field

theorem setPasses (m : Mode) {f : Field} (apart : f.Apart Layout.kind) {value : UInt32}
    (small : value ≤ f.maxValue) (w : Word) : w.setIn m f value = .ok (w.set f value) := by
  have overlaps : f.overlapsIn m Layout.kind = .ok false := by
    rw [overlapsIn, maskPasses m apart.left, maskPasses m apart.right, apartOverlaps apart]
    rfl
  have written : f.setIn m w.raw value = .ok (f.set w.raw value) := by
    rw [Field.setIn, Field.setPasses m apart.left small]
    rfl
  cases m <;> simp only [setIn, overlaps, written] <;> rfl

theorem readPasses (m : Mode) {c : Cache} (sound : c.Sound) (computed : Bool) (w : Word) :
    w.readCacheIn m c computed = (w.readFlag c computed).map fun read =>
      (.read read.1 (w.computations c), read.2) := by
  have valid := maskPasses m (flagFits sound.valid)
  have value := maskPasses m (flagFits sound.value)
  have busy := maskPasses m (flagFits sound.busy)
  unfold readCacheIn claimIn publishIn readFlag computations readCache
  rw [valid]
  cases w.reading c with
  | answer known => rw [value]; rfl
  | wait => rw [busy]; rfl
  | compute => cases computed <;> simp only [busy, value] <;> rfl

end Word

namespace Header

def writeIn (m : Mode) (h : Header) : List (Field × UInt32) → Run Header
  | [] => .ok h
  | (f, value) :: rest => do
    let word ← h.word.setIn m f value
    writeIn m { h with word } rest

theorem writePasses (m : Mode) {f : Field} {value : UInt32} {h next : Header}
    {rest : List (Field × UInt32)} (apart : f.Apart Layout.kind) (small : value ≤ f.maxValue)
    (later : (h.set f value).writeIn m rest = .ok next) :
    h.writeIn m ((f, value) :: rest) = .ok next :=
  bindOk.mpr ⟨_, Word.setPasses m apart small h.word, later⟩

end Header

structure NodesPass (m : Mode) : Prop where
  kind (k : Kind) : Layout.kind.setIn m 0 (UInt32.ofNat k.number) = .ok (Word.ofKind k).raw
  inlineCommand (start stop : Location) (id : UInt16) (style : RenderStyle)
    (args : List Argument) : (Header.ofSpan .inlineCommand ⟨start, stop⟩).writeIn m
      [(Layout.inlineCommandId, id.toUInt32), (Layout.renderStyle, style.code)] =
      .ok (InlineCommand.make start stop id style args).header
  command (k : Kind) (start stop : Location) (id : UInt16) :
    { Header.ofSpan k ⟨start, stop⟩ with location := start.shift 1 }.writeIn m
      [(Layout.blockCommandId, id.toUInt32)] =
      .ok (BlockCommand.ofKind k start stop id : BlockCommand Comment).header
  form (form : Form) : form.kind.isBlockCommand = true
  noContent : (Header.ofSpan .paragraph .unset).writeIn m
      [(Layout.paragraphWhitespace, 1), (Layout.paragraphWhitespaceValid, 1)] =
      .ok (Paragraph.ofContent []).header
  direction (base : BlockCommand Comment) (d : Direction) (explicit : Bool) :
    base.header.writeIn m
      [(Layout.direction, d.code), (Layout.directionExplicit, explicit.toUInt32)] =
      .ok (base.setDirection d explicit).header
  selfClosing (tag : StartTag) :
    tag.header.writeIn m [(Layout.selfClosing, 1)] = .ok tag.setSelfClosing.header
  newline {c d : Comment} (added : c.addTrailingNewline? = some d) :
    c.header.writeIn m [(Layout.trailingNewline, 1)] = .ok d.header
  text (n : Text) : n.header.word.readCacheIn m Layout.textCache (isBlank n.text) =
    n.readBlank.map fun read =>
      (.read read.1 (n.header.word.computations Layout.textCache), read.2.header.word)
  paragraph {p next : Paragraph Comment} {blank : Bool} (read : p.readBlank = .ok (blank, next)) :
    p.header.word.readCacheIn m Layout.paragraphCache blank =
      .ok (.read blank (p.header.word.computations Layout.paragraphCache), next.header.word)
  get {name : String} {f : Field} (named : (name, f) ∈ Layout.named) (word : UInt32) :
    f.getIn m word = .ok (f.get word)

theorem nodesPass (m : Mode) : NodesPass m where
  kind k := by
    have small : UInt32.ofNat k.number ≤ Layout.kind.maxValue := by cases k <;> decide
    rw [Field.setIn, Field.setPasses m (by decide) small]
    rfl
  inlineCommand start stop id style args := by
    have small : style.code ≤ Layout.renderStyle.maxValue := by cases style <;> decide
    exact Header.writePasses m (by decide) (idFits (by decide) id)
      (Header.writePasses m (by decide) small rfl)
  command k start stop id := Header.writePasses m (by decide) (idFits (by decide) id) rfl
  form form := form.isCommand
  noContent := Header.writePasses m (by decide) (by decide)
    (Header.writePasses m (by decide) (by decide) rfl)
  direction base d explicit := by
    have small : d.code ≤ Layout.direction.maxValue := by cases d <;> decide
    have flag : explicit.toUInt32 ≤ Layout.directionExplicit.maxValue := by
      cases explicit <;> decide
    exact Header.writePasses m (by decide) small (Header.writePasses m (by decide) flag rfl)
  selfClosing tag := Header.writePasses m (by decide) (by decide) rfl
  newline {c d} added := by
    cases c <;> cases added <;> exact Header.writePasses m (by decide) (by decide) rfl
  text n := by
    rw [Word.readPasses m textCacheSound, Text.readBlank, Word.readFlag, Word.readCache]
    cases n.header.word.reading Layout.textCache <;> rfl
  paragraph {p next blank} read := by
    rw [Word.readPasses m paragraphCacheSound]
    unfold Paragraph.readBlank Word.readCache at read
    unfold Word.readFlag Word.readCache
    cases reading : p.header.word.reading Layout.paragraphCache with
    | answer known =>
      rw [reading] at read
      cases read
      rfl
    | wait =>
      rw [reading] at read
      cases read
    | compute =>
      rw [reading] at read
      obtain ⟨_, computed, same⟩ := bindOk.mp read
      obtain ⟨_, _, published⟩ := bindOk.mp computed
      cases published
      cases same
      rfl
  get {name f} named word := by
    have fits : ∀ e ∈ Layout.named, e.2.Fits := by decide
    rw [Field.getIn, Field.maskPasses m (fits _ named)]
    rfl

theorem checksOnlyStop (t : CommandTable) :
    (∀ d : Draft, Agrees fun m => d.build m t) ∧
    (∀ content, Agrees fun m => Paragraph.build m content) ∧
    (∀ blocks info, Agrees fun m => FullComment.build m blocks info) ∧
    (∀ drafts info, Agrees fun m => FullComment.ofDrafts m t drafts info) ∧
    (∀ (action : Action) (c : Comment), Agrees fun m => action.act m t c) ∧
    (∀ (action : Word.Action) (w : Word), Agrees fun m => w.act m action) ∧
    (∀ f g word value, Field.Checks f g word value) ∧
    (∀ (c : Comment) actions, Unstopped (c.run .checked t actions) →
      c.run .unchecked t actions = c.run .checked t actions) ∧
    (∀ (w : Word) actions, Unstopped (w.run .checked actions) →
      w.run .unchecked actions = w.run .checked actions) ∧
    (∀ r, Made .checked r → Made .unchecked r) ∧
    ∀ m, NodesPass m :=
  ⟨draftAgrees t, paragraphAgrees, blocksAgree, treeAgrees t, actionAgrees t, Word.actAgrees,
    Field.checks, fun _ _ => Comment.runAgrees, fun _ _ => Word.runAgrees,
    fun _ => madeUnchecked, nodesPass⟩

example : (Word.ofKind .text).act .checked (.set Layout.kind 2) = .error .kindImmutable ∧
    ((Word.ofKind .text).act .unchecked (.set Layout.kind 2)).map (·.2.kind) =
      .ok .inlineCommand := by
  decide

end DocTree
