import DocTree.Proofs.Building

/-! A node's word as a record. `Comment.attributes` is what the accessors of a node read from
its word, `Seed.record` the record its constructor writes, and `Action.written` what an action
writes to that record. Through every run the accessors answer what the record holds. -/
namespace DocTree

namespace Header
open DocTree.Field

variable {f g : Field}

theorem setFlagSet (f : Field) (h : Header) (b : Bool) : h.setFlag f b = h.set f b.toUInt32 := rfl

theorem kindOfSet (apart : f.Apart Layout.kind) (h : Header) (v : UInt32) :
    (h.set f v).kind = h.kind := Word.kindOther apart h.word v

theorem getOfSet {v : UInt32} (fits : f.Fits) (small : v ≤ f.maxValue) (h : Header) :
    (h.set f v).get f = v := Word.getSet fits small h.word

theorem getOfOther (apart : f.Apart g) (h : Header) (v : UInt32) :
    (h.set f v).get g = h.get g := Word.getOther apart h.word v

theorem flagOfSet (isFlag : f.IsFlag) (h : Header) (b : Bool) :
    (h.set f b.toUInt32).flag f = b := Word.flagSame isFlag h.word b

theorem flagOfOther (apart : f.Apart g) (h : Header) (v : UInt32) :
    (h.set f v).flag g = h.flag g := Word.flagOther apart h.word v

end Header

structure Attributes where
  kind : Kind
  id : Option UInt16 := none
  style : Option RenderStyle := none
  direction : Option Direction := none
  explicit : Option Bool := none
  selfClosing : Option Bool := none
  newline : Option Bool := none
  blank : Option (Option Bool) := none
  deriving DecidableEq, Repr

def Comment.attributes (c : Comment) : Attributes :=
  let common : Attributes := { kind := c.kind, newline := c.trailingNewline? }
  match c with
  | .text n => { common with blank := some n.cachedBlank? }
  | .inlineCommand n => { common with id := some n.id, style := some n.style }
  | .startTag tag => { common with selfClosing := some tag.isSelfClosing }
  | .endTag _ => common
  | .paragraph p => { common with blank := some p.cachedBlank? }
  | .command (.param _) base =>
    { common with
      id := some base.id, direction := some base.direction,
      explicit := some base.isDirectionExplicit }
  | .command _ base => { common with id := some base.id }
  | .verbatimBlockLine _ => common

/-- What an action writes to a record, for a node whose content comes out as `blank`. A write
to a missing attribute is refused. Snapshots ask paragraphs alone whether they are blank. -/
def Action.written (blank : Bool) (action : Action) (a : Attributes) : Attributes :=
  match action with
  | .step .addNewline => { a with newline := a.newline.map fun _ => true }
  | .step (.setDirection d explicit) =>
    { a with
      direction := a.direction.map fun _ => d, explicit := a.explicit.map fun _ => explicit }
  | .step .setSelfClosing => { a with selfClosing := a.selfClosing.map fun _ => true }
  | .step .isBlank => { a with blank := a.blank.map fun _ => some blank }
  | .step .outline | .step .json =>
    if a.kind = .paragraph then { a with blank := some (some blank) } else a
  | _ => a

namespace Seed

def record (t : CommandTable) : Seed → Run Attributes
  | .text _ _ _ | .placedText _ _ =>
    .ok { kind := .text, newline := some false, blank := some none }
  | .inlineCommand _ _ command style _ => do
    return {
      kind := .inlineCommand, id := some (← command.resolve t), style := some style,
      newline := some false }
  | .startTag _ _ => .ok { kind := .startTag, selfClosing := some false, newline := some false }
  | .endTag _ _ _ => .ok { kind := .endTag, newline := some false }
  | .block _ _ command => do return { kind := .blockCommand, id := some (← command.resolve t) }
  | .param _ _ command => do
    return {
      kind := .paramCommand, id := some (← command.resolve t), direction := some .input,
      explicit := some false }
  | .tparam _ _ command => do return { kind := .tparamCommand, id := some (← command.resolve t) }
  | .verbatimBlock _ _ command => do
    return { kind := .verbatimBlock, id := some (← command.resolve t) }
  | .verbatimLine _ _ command _ _ => do
    return { kind := .verbatimLine, id := some (← command.resolve t) }
  | .verbatimBlockLine _ _ => .ok { kind := .verbatimBlockLine }
  | .placedParagraph _ _ => .ok { kind := .paragraph, blank := some none }
  | .placedBlock _ name => do
    return { kind := .blockCommand, id := some (← Placed.commandId t name) }
  | .placedParam _ _ => do
    return {
      kind := .paramCommand, id := some (← Placed.commandId t "param"), direction := some .input,
      explicit := some false }
  | .placedTParam _ _ => do
    return { kind := .tparamCommand, id := some (← Placed.commandId t "tparam") }

end Seed

theorem idFits {f : Field} (wide : f.maxValue = 65535) (id : UInt16) :
    id.toUInt32 ≤ f.maxValue := by
  have bound := id.toNat_lt
  have largest : (65535 : UInt32).toNat = 65535 := rfl
  rw [wide, UInt32.le_iff_toNat_le, UInt16.toNat_toUInt32, largest]
  omega

namespace BlockCommand

theorem idOfKind {α : Type} (k : Kind) (start stop : Location) (id : UInt16) :
    (ofKind k start stop id : BlockCommand α).id = id := by
  unfold BlockCommand.id ofKind
  rw [Header.getOfSet (by decide) (idFits (by decide) id), UInt16.toUInt16_toUInt32]

theorem kindOfKind {α : Type} (k : Kind) (start stop : Location) (id : UInt16) :
    (ofKind k start stop id : BlockCommand α).header.kind = k := by
  unfold ofKind
  exact (Header.kindOfSet (by decide) _ _).trans (Word.kindOfKind k)

variable {α : Type} (base : BlockCommand α) (d : Direction) (explicit : Bool)

theorem directionSet : (base.setDirection d explicit).direction = d := by
  have small : d.code ≤ Layout.direction.maxValue := by cases d <;> decide
  simp only [direction, setDirection, Header.setFlagSet]
  rw [Header.getOfOther (by decide), Header.getOfSet (by decide) small, Direction.ofCode_code]

theorem explicitSet : (base.setDirection d explicit).isDirectionExplicit = explicit :=
  Header.flagOfSet (by decide) _ explicit

theorem idSetDirection : (base.setDirection d explicit).id = base.id := by
  simp only [BlockCommand.id, setDirection, Header.setFlagSet]
  rw [Header.getOfOther (by decide), Header.getOfOther (by decide)]

theorem kindSetDirection : (base.setDirection d explicit).header.kind = base.header.kind := by
  simp only [setDirection, Header.setFlagSet]
  rw [Header.kindOfSet (by decide), Header.kindOfSet (by decide)]

end BlockCommand

namespace InlineCommand

variable (start stop : Location) (id : UInt16) (style : RenderStyle) (args : List Argument)

theorem idMake : (make start stop id style args).id = id := by
  unfold InlineCommand.id make
  rw [Header.getOfOther (by decide),
    Header.getOfSet (by decide) (idFits (by decide) id), UInt16.toUInt16_toUInt32]

theorem styleMake : (make start stop id style args).style = style := by
  have small : style.code ≤ Layout.renderStyle.maxValue := by cases style <;> decide
  unfold InlineCommand.style make
  rw [Header.getOfSet (by decide) small, RenderStyle.ofCode_code]

end InlineCommand

namespace Comment

theorem newlineAttributes (c : Comment) : ((c.changed c.addTrailingNewline?).2).attributes =
    { c.attributes with newline := c.attributes.newline.map fun _ => true } := by
  have kind (h : Header) : (h.setFlag Layout.trailingNewline true).kind = h.kind :=
    Header.kindOfSet (by decide) h _
  have newline (h : Header) :
      (h.setFlag Layout.trailingNewline true).flag Layout.trailingNewline = true :=
    Header.flagOfSet (by decide) h true
  cases c with
  | text n =>
    have blank : (n.header.setFlag Layout.trailingNewline true).word.cached? Layout.textCache =
        n.header.word.cached? Layout.textCache :=
      Word.cachedOther (by decide) (by decide) n.header.word _
    simp only [changed, addTrailingNewline?, attributes, Comment.kind, header, trailingNewline?,
      Text.cachedBlank?, kind, newline, blank, Option.map_some]
  | inlineCommand n =>
    have id : (n.header.setFlag Layout.trailingNewline true).get Layout.inlineCommandId =
        n.header.get Layout.inlineCommandId :=
      Header.getOfOther (by decide) n.header _
    have style : (n.header.setFlag Layout.trailingNewline true).get Layout.renderStyle =
        n.header.get Layout.renderStyle :=
      Header.getOfOther (by decide) n.header _
    simp only [changed, addTrailingNewline?, attributes, Comment.kind, header, trailingNewline?,
      InlineCommand.id, InlineCommand.style, kind, newline, id, style, Option.map_some]
  | startTag tag =>
    have selfClosing : (tag.header.setFlag Layout.trailingNewline true).flag Layout.selfClosing =
        tag.header.flag Layout.selfClosing :=
      Header.flagOfOther (by decide) tag.header _
    simp only [changed, addTrailingNewline?, attributes, Comment.kind, header, trailingNewline?,
      StartTag.isSelfClosing, kind, newline, selfClosing, Option.map_some]
  | endTag tag =>
    simp only [changed, addTrailingNewline?, attributes, Comment.kind, header, trailingNewline?,
      kind, newline, Option.map_some]
  | paragraph p => rfl
  | command form base => cases form <;> rfl
  | verbatimBlockLine n => rfl

theorem selfClosingAttributes (tag : StartTag) : (Comment.startTag tag.setSelfClosing).attributes =
    { (Comment.startTag tag).attributes with selfClosing := some true } := by
  have kind : (tag.header.setFlag Layout.selfClosing true).kind = tag.header.kind :=
    Header.kindOfSet (by decide) tag.header _
  have selfClosing : (tag.header.setFlag Layout.selfClosing true).flag Layout.selfClosing = true :=
    Header.flagOfSet (by decide) tag.header true
  have newline : (tag.header.setFlag Layout.selfClosing true).flag Layout.trailingNewline =
      tag.header.flag Layout.trailingNewline :=
    Header.flagOfOther (by decide) tag.header _
  simp only [attributes, Comment.kind, header, trailingNewline?, StartTag.setSelfClosing,
    StartTag.isSelfClosing, kind, newline, selfClosing]

theorem directionAttributes (index : Option Nat) (base : BlockCommand Comment) (d : Direction)
    (explicit : Bool) : (Comment.command (.param index) (base.setDirection d explicit)).attributes =
      { (Comment.command (.param index) base).attributes with
        direction := some d, explicit := some explicit } := by
  simp only [attributes, Comment.kind, header, trailingNewline?, base.directionSet,
    base.explicitSet, base.idSetDirection, base.kindSetDirection]

theorem textFilled {n : Text} (cached : Cached (.text n)) :
    (Comment.text n.filled).attributes =
      { (Comment.text n).attributes with blank := some (some (isBlank n.text)) } := by
  have kind : n.filled.header.kind = n.header.kind := Word.filledKind textCacheSound _ _
  have blank : n.filled.cachedBlank? = some (isBlank n.text) :=
    Word.filledCached textCacheSound cached
  have newline : n.filled.header.flag Layout.trailingNewline =
      n.header.flag Layout.trailingNewline :=
    Word.filledFlag (by decide) (by decide) _ _
  simp only [attributes, Comment.kind, header, trailingNewline?, kind, blank, newline]

theorem paragraphFilled {p q : Paragraph Comment} (cached : Cached (.paragraph p))
    (same : q.header = p.filled.header) : (Comment.paragraph q).attributes =
      { (Comment.paragraph p).attributes with
        blank := some (some (freshBlank (.paragraph p))) } := by
  have kind : q.header.kind = p.header.kind := by
    rw [same]
    exact Word.filledKind paragraphCacheSound _ _
  have blank : q.cachedBlank? = some (freshBlank (.paragraph p)) := by
    unfold Paragraph.cachedBlank?
    rw [same]
    exact Word.filledCached paragraphCacheSound cached
  simp only [attributes, Comment.kind, header, trailingNewline?, kind, blank]

theorem sameAttributes {c d : Comment} (content : d.contentKind = c.contentKind)
    (word : d.header.word = c.header.word) : d.attributes = c.attributes := by
  cases c with
  | command form base =>
    cases d with
    | command next after =>
      cases form <;> cases next <;> cases content <;>
        simp only [attributes, Comment.kind, header, Header.kind, trailingNewline?,
          BlockCommand.id, BlockCommand.direction, BlockCommand.isDirectionExplicit, Header.get,
          Header.flag, show after.header.word = base.header.word from word]
    | _ => cases form <;> cases content
  | _ =>
    cases d with
    | command next after => cases next <;> cases content
    | _ =>
      cases content <;> simp only [header] at word <;>
        simp only [attributes, Comment.kind, header, Header.kind, trailingNewline?,
          Text.cachedBlank?, InlineCommand.id, InlineCommand.style, StartTag.isSelfClosing,
          Paragraph.cachedBlank?, Header.get, Header.flag, word]

def Step.isQuiet : Step → Bool
  | .addNewline | .setDirection _ _ | .setSelfClosing | .isBlank | .outline | .json => false
  | _ => true

theorem baseAttributes {c : Comment} {f : BlockCommand Comment → BlockCommand Comment}
    (word : ∀ base, (f base).header.word = base.header.word) :
    ((c.changed (c.modifyBase? f)).2).attributes = c.attributes := by
  cases c with
  | command form base =>
    cases form with
    | verbatimLine textStart text => rfl
    | _ => exact sameAttributes rfl (word base)
  | _ => rfl

theorem argsAttributes (c : Comment) (args : List Argument) :
    ((c.changed (c.modifyBase? (·.setArgs args))).2).attributes = c.attributes := by
  refine baseAttributes fun base => ?_
  unfold BlockCommand.setArgs
  split <;> rfl

theorem linesAttributes (c : Comment) (lines : List VerbatimBlockLine) :
    ((c.changed (c.setLines? lines)).2).attributes = c.attributes := by
  cases c with
  | command form base =>
    cases form with
    | verbatimBlock closeName closeLoc old =>
      refine sameAttributes rfl ?_
      simp only [changed, setLines?, header]
      split <;> rfl
    | _ => rfl
  | _ => rfl

theorem closeAttributes (c : Comment) (name : String) (loc : Location) :
    ((c.changed (c.setClose? name loc)).2).attributes = c.attributes := by
  cases c with
  | command form base => cases form <;> rfl
  | _ => rfl

theorem paramQuiet {step form base answer next}
    (h : performParam step form base = .ok (answer, next)) (quiet : step.isQuiet = true) :
    next.attributes = (Comment.command form base).attributes := by
  unfold performParam at h
  split at h
  · cases quiet
  · obtain ⟨form, made, same⟩ := bindOk.mp h
    cases same
    cases Form.withIndexOk made
    exact sameAttributes rfl rfl
  · rw [answerKeeps h]
  · rw [answerKeeps h]
  · rw [answerKeeps h]
  · obtain ⟨form, made, same⟩ := bindOk.mp h
    cases same
    cases Form.withPositionOk made
    exact sameAttributes rfl rfl
  · rw [answerKeeps h]
  · rw [answerKeeps h]
  · obtain ⟨_, _, found⟩ := bindOk.mp h
    rw [answerKeeps found]
  · cases h
    rfl

theorem tagQuiet {step tag answer next} (h : performTag step tag = .ok (answer, next))
    (quiet : step.isQuiet = true) : next.attributes = (Comment.startTag tag).attributes := by
  unfold performTag at h
  split at h
  · cases h
    refine sameAttributes rfl ?_
    unfold StartTag.setAttributes
    split <;> rfl
  · cases h
    exact sameAttributes rfl rfl
  · cases quiet
  · rw [answerKeeps h]
  · cases h
    rfl

theorem performQuiet {t step c answer next} (h : c.perform t step = .ok (answer, next))
    (all : Everywhere Cached c) (quiet : step.isQuiet = true) : next.attributes = c.attributes := by
  have changed {result : Answer × Comment} (h : .ok result = (.ok (answer, next) : Run _)) :
      next.attributes = result.2.attributes :=
    (congrArg (·.2.attributes) (Except.ok.inj h)).symm
  unfold perform at h
  split at h
  · cases h; rfl
  · cases h; rfl
  · cases quiet
  · exact (changed h).trans (argsAttributes c _)
  · exact (changed h).trans (linesAttributes c _)
  · exact (changed h).trans (closeAttributes c _ _)
  · cases quiet
  · cases c with
    | command form base =>
      obtain ⟨_, after, read, _, same⟩ := nonBlankHolds all
      obtain ⟨_, done, made⟩ := bindOk.mp h
      cases done.symm.trans read
      cases made
      exact sameAttributes rfl (congrArg Header.word same)
    | _ => cases h; rfl
  · unfold performArg at h
    split at h
    · rw [answerKeeps h]
    · cases h; rfl
  · unfold performLine at h
    split at h
    · rw [answerKeeps h]
    · cases h; rfl
  · cases h; rfl
  · rw [answerKeeps h]
  · cases quiet
  · cases quiet
  · split at h
    · exact paramQuiet h quiet
    · exact tagQuiet h quiet
    · cases h; rfl

theorem stepQuiet {m t step c} (all : Everywhere Cached c) (quiet : step.isQuiet = true) :
    (c.step m t (.step step)).2.attributes = c.attributes := by
  unfold Comment.step Action.act
  cases performed : c.perform t step with
  | error fault => rfl
  | ok result => exact performQuiet performed all quiet

theorem blankAttributes {c : Comment} (all : Everywhere Cached c) :
    ∃ answer next, c.performBlank = .ok (answer, next) ∧
      next.attributes = { c.attributes with
        blank := c.attributes.blank.map fun _ => some (freshBlank c) } := by
  cases c with
  | text n =>
    exact ⟨_, _, bindOk.mpr ⟨_, Text.readHolds (everywhereOwn all), rfl⟩,
      textFilled (everywhereOwn all)⟩
  | paragraph p =>
    obtain ⟨q, read, _, same⟩ := paragraphHolds all
    exact ⟨_, _, bindOk.mpr ⟨_, read, rfl⟩, paragraphFilled (everywhereOwn all) same⟩
  | command form base => exact ⟨_, _, rfl, by cases form <;> rfl⟩
  | _ => exact ⟨_, _, rfl, rfl⟩

theorem settledAttributes {c d : Comment} (sound : Sound c) (related : Reread c d)
    (settled : d.header = settledHeader c) : d.attributes =
      if c.kind = .paragraph then { c.attributes with blank := some (some (freshBlank c)) }
      else c.attributes := by
  have content := changeContent (P := Cached) (.read related)
  rw [sound.kind]
  cases c with
  | paragraph p =>
    obtain ⟨q, rfl⟩ := rereadParagraph related
    exact paragraphFilled sound.cached settled
  | command form base =>
    have other : (Comment.command form base).contentKind ≠ .paragraph := by cases form <;> nofun
    rw [if_neg other]
    exact sameAttributes content (congrArg Header.word settled)
  | _ => exact sameAttributes content (congrArg Header.word settled)

theorem kindAttributes (c : Comment) : c.attributes.kind = c.kind := by
  cases c with
  | command form base => cases form <;> rfl
  | _ => rfl

theorem snapshotKept {t c} (f : Snapshot → String) (all : Everywhere Sound c) :
    ∃ answer next, (do return (.text (f (← c.snapshot t)), ← c.settle) : Run (Answer × Comment)) =
      .ok (answer, next) ∧ next.attributes =
        if c.attributes.kind = .paragraph then
          { c.attributes with blank := some (some (freshBlank c)) }
        else c.attributes := by
  have cached := upheldCached (soundUpheld .checked) all
  obtain ⟨s, taken⟩ := snapshotHolds t c cached
  obtain ⟨d, settled, related, header⟩ := settleHolds c cached
  refine ⟨_, d, bindOk.mpr ⟨s, taken, bindOk.mpr ⟨d, settled, rfl⟩⟩, ?_⟩
  rw [kindAttributes]
  exact settledAttributes (everywhereOwn all) related header

theorem stepAttributes {m t c} (all : Everywhere Sound c) (action : Action) :
    (c.step m t action).2.attributes = action.written (freshBlank c) c.attributes := by
  have cached := upheldCached (soundUpheld m) all
  have performed (step : Step) {answer next} (h : c.perform t step = .ok (answer, next)) :
      (c.step m t (.step step)).2 = next := by
    have acted : Action.act m t (.step step) c = .ok (answer, next) := h
    unfold Comment.step
    rw [acted]
  cases action with
  | setParagraph d =>
    unfold Comment.step Action.act
    cases built : Draft.build m t d with
    | error fault => rfl
    | ok p =>
      cases p with
      | paragraph p => exact baseAttributes fun base => rfl
      | _ => rfl
  | step step =>
    cases step with
    | addNewline => exact newlineAttributes c
    | setDirection d explicit =>
      cases c with
      | command form base =>
        cases form with
        | param index => exact directionAttributes index base d explicit
        | _ => rfl
      | _ => rfl
    | setSelfClosing =>
      cases c with
      | command form base => cases form <;> rfl
      | startTag tag => exact selfClosingAttributes tag
      | _ => rfl
    | isBlank =>
      obtain ⟨_, next, read, attributes⟩ := blankAttributes cached
      rw [performed .isBlank read]
      exact attributes
    | outline =>
      obtain ⟨_, next, taken, attributes⟩ := snapshotKept Snapshot.outline all
      rw [performed .outline taken]
      exact attributes
    | json =>
      obtain ⟨_, next, taken, attributes⟩ := snapshotKept Snapshot.json all
      rw [performed .json taken]
      exact attributes
    | _ => exact stepQuiet cached rfl

theorem stepFresh {m t c} (all : Everywhere Sound c) (action : Action) :
    freshBlank (c.step m t action).2 = freshBlank c := by
  have cached := upheldCached (soundUpheld m) all
  unfold Comment.step
  cases acted : action.act m t c with
  | error fault => rfl
  | ok result => exact changeFresh (actChange acted cached)

theorem runAttributes {m t c actions i answer next} (all : Everywhere Sound c)
    (found : (c.run m t actions)[i]? = some (answer, next)) : next.attributes =
      (actions.take (i + 1)).foldl (fun a action => action.written (freshBlank c) a)
        c.attributes := by
  -- what the content comes to is kept by every step, so all steps write the same answer
  induction actions generalizing c i with
  | nil => nomatch found
  | cons action rest ih =>
    have first := stepAttributes (m := m) (t := t) all action
    cases i with
    | zero =>
      have same : c.step m t action = (answer, next) := by simpa [run] using found
      rw [same] at first
      simpa using first
    | succ i =>
      have later := ih (upheldStep (soundUpheld m) action all) (by simpa [run] using found)
      rw [later, first, stepFresh all]
      rfl

theorem commandFresh (form : Form) (other : form.kind ≠ .paramCommand) (start stop : Location)
    (id : UInt16) : (Comment.command form (.ofKind form.kind start stop id)).attributes =
      { kind := form.kind, id := some id } := by
  cases form with
  | param index => exact absurd rfl other
  | _ =>
    simp only [attributes, Comment.kind, header, trailingNewline?, BlockCommand.idOfKind,
      BlockCommand.kindOfKind]

theorem commandRecord {start stop c} {id : Run UInt16} (form : Form)
    (other : form.kind ≠ .paramCommand)
    (h : (do return .command form (.ofKind form.kind start stop (← id))) = (.ok c : Run Comment)) :
    (do return { kind := form.kind, id := some (← id) } : Run Attributes) = .ok c.attributes := by
  obtain ⟨id, found, same⟩ := bindOk.mp h
  cases same
  exact bindOk.mpr ⟨id, found, congrArg Except.ok (commandFresh form other start stop id).symm⟩

theorem paramFresh (start stop : Location) (id : UInt16) :
    (Comment.param start stop id).attributes =
      { kind := .paramCommand, id := some id, direction := some .input,
        explicit := some false } := by
  simp only [Comment.param, attributes, Comment.kind, header, trailingNewline?,
    BlockCommand.directionSet, BlockCommand.explicitSet, BlockCommand.idSetDirection,
    BlockCommand.kindSetDirection, BlockCommand.idOfKind, BlockCommand.kindOfKind]

theorem inlineFresh (start stop : Location) (id : UInt16) (style : RenderStyle)
    (args : List Argument) :
    (Comment.inlineCommand (.make start stop id style args)).attributes =
      { kind := .inlineCommand, id := some id, style := some style, newline := some false } := by
  have kind : (InlineCommand.make start stop id style args).header.kind = .inlineCommand :=
    (Header.kindOfSet (by decide) _ _).trans
      ((Header.kindOfSet (by decide) _ _).trans (Word.kindOfKind .inlineCommand))
  have newline : (InlineCommand.make start stop id style args).header.flag
      Layout.trailingNewline = false :=
    (Header.flagOfOther (by decide) _ _).trans
      ((Header.flagOfOther (by decide) _ _).trans
        (Word.flagOfKind (by decide) .inlineCommand))
  simp only [attributes, Comment.kind, header, trailingNewline?, kind, newline,
    InlineCommand.idMake, InlineCommand.styleMake]

theorem wordFresh {c d : Comment} {a : Attributes} (content : d.contentKind = c.contentKind)
    (word : d.header.word = c.header.word) (record : c.attributes = a) : a = d.attributes :=
  record.symm.trans (sameAttributes content word).symm

theorem paragraphFresh (content : List Comment) :
    { kind := .paragraph, blank := some (if content.isEmpty then some true else none) } =
      (Comment.paragraph (.ofContent content)).attributes := by
  cases content with
  | nil => decide
  | cons c rest =>
    have one : (Comment.paragraph (.ofContent [.text (.make .invalid .invalid "")])).attributes =
        { kind := .paragraph, blank := some none } := by decide
    exact wordFresh (c := .paragraph (.ofContent [.text (.make .invalid .invalid "")])) rfl rfl one

theorem namedAttributes (c : Comment) (args : List Argument) :
    ((c.modifyBase? (·.setArgs args)).getD c).attributes = c.attributes := by
  have kept := argsAttributes c args
  cases named : c.modifyBase? (·.setArgs args) with
  | none => rfl
  | some d => rwa [named] at kept

theorem seedAttributes {m t c} {seed : Seed} (h : seed.build m t = .ok c) :
    seed.record t = .ok c.attributes := by
  cases seed with
  | text =>
    cases h
    exact congrArg Except.ok
      (wordFresh (c := .text (.make .invalid .invalid "")) rfl rfl (by decide))
  | startTag =>
    cases h
    exact congrArg Except.ok (wordFresh (c := .startTag (.make .invalid "")) rfl rfl (by decide))
  | endTag =>
    cases h
    exact congrArg Except.ok
      (wordFresh (c := .endTag (.make .invalid .invalid "")) rfl rfl (by decide))
  | verbatimBlockLine =>
    cases h
    exact congrArg Except.ok
      (wordFresh (c := .verbatimBlockLine (.make .invalid "")) rfl rfl (by decide))
  | inlineCommand =>
    obtain ⟨id, found, same⟩ := bindOk.mp h
    cases same
    exact bindOk.mpr ⟨id, found, congrArg Except.ok (inlineFresh ..).symm⟩
  | param =>
    obtain ⟨id, found, same⟩ := bindOk.mp h
    cases same
    exact bindOk.mpr ⟨id, found, congrArg Except.ok (paramFresh ..).symm⟩
  | block => exact commandRecord .block nofun h
  | tparam => exact commandRecord (.tparam []) nofun h
  | verbatimBlock => exact commandRecord (.verbatimBlock "" .invalid []) nofun h
  | verbatimLine start stop id textStart text =>
    exact commandRecord (.verbatimLine textStart text) nofun h
  | placedParagraph =>
    obtain ⟨_, _, rest⟩ := bindOk.mp h
    obtain ⟨_, built, same⟩ := bindOk.mp rest
    cases same
    obtain ⟨_, rfl⟩ := Paragraph.buildOk built
    exact congrArg Except.ok (paragraphFresh [_])
  | placedText =>
    obtain ⟨_, _, same⟩ := bindOk.mp h
    cases same
    exact congrArg Except.ok
      (wordFresh (c := .text (.make .invalid .invalid "")) rfl rfl (by decide))
  | placedBlock =>
    obtain ⟨_, _, rest⟩ := bindOk.mp h
    obtain ⟨_, _, rest⟩ := bindOk.mp rest
    exact commandRecord .block nofun rest
  | placedParam =>
    obtain ⟨_, _, rest⟩ := bindOk.mp h
    obtain ⟨id, found, rest⟩ := bindOk.mp rest
    obtain ⟨args, _, same⟩ := bindOk.mp rest
    refine bindOk.mpr ⟨id, found, congrArg Except.ok ?_⟩
    cases args with
    | nil => cases same; exact (paramFresh ..).symm
    | cons => cases same; exact ((namedAttributes ..).trans (paramFresh ..)).symm
  | placedTParam =>
    obtain ⟨_, _, rest⟩ := bindOk.mp h
    obtain ⟨id, found, rest⟩ := bindOk.mp rest
    obtain ⟨args, _, same⟩ := bindOk.mp rest
    refine bindOk.mpr ⟨id, found, congrArg Except.ok ?_⟩
    cases args with
    | nil => cases same; exact (commandFresh (.tparam []) nofun ..).symm
    | cons =>
      cases same
      exact ((namedAttributes ..).trans (commandFresh (.tparam []) nofun ..)).symm

/-- Through every run the accessors of a node answer what a record holds that starts as given
and takes the writes of the run's actions, one after the other. -/
def Records (m : Mode) (t : CommandTable) (c : Comment) (a : Attributes) : Prop :=
  c.attributes = a ∧ ∀ actions i answer next, (c.run m t actions)[i]? = some (answer, next) →
    next.attributes =
      (actions.take (i + 1)).foldl (fun a action => action.written (freshBlank c) a) a

theorem soundRecords {m t c} (all : Everywhere Sound c) : c.Records m t c.attributes :=
  ⟨rfl, fun _ _ _ _ found => runAttributes all found⟩

end Comment

namespace FullComment
open Comment

theorem runKind {t steps answer} {f next : FullComment} {i : Nat}
    (all : ∀ c ∈ f.blocks, Everywhere Sound c)
    (found : (f.run t steps)[i]? = some (answer, next)) : next.kind = f.kind := by
  have sound := soundUpheld .checked
  induction steps generalizing f i with
  | nil => nomatch found
  | cons s rest ih =>
    have kept := (stepBlocks t f s fun c member => upheldCached sound (all c member)).1
    cases i with
    | zero =>
      have same : f.step t s = (answer, next) := by simpa [run] using found
      rw [same] at kept
      exact congrArg Header.kind kept
    | succ i =>
      have later := ih (upheldBlocks sound t f s all) (by simpa [run] using found)
      exact later.trans (congrArg Header.kind kept)

end FullComment

open Comment in
theorem wordsAreRecords (m : Mode) (t : CommandTable) :
    (∀ (seed : Seed) (c : Comment), seed.build m t = .ok c →
      ∃ a, seed.record t = .ok a ∧ c.Records m t a) ∧
    (∀ (drafts : List Draft) (content : List Comment) (p : Paragraph Comment),
      Draft.buildAll m t drafts = .ok content → Paragraph.build m content = .ok p →
        (Comment.paragraph p).Records m t
          { kind := .paragraph, blank := some (if content.isEmpty then some true else none) }) ∧
    (∀ (drafts : List Draft) (blocks : List Comment) (info : DeclInfo) (f : FullComment),
      Draft.buildAll m t drafts = .ok blocks → FullComment.build m blocks info = .ok f →
        f.kind = .fullComment ∧ ∀ (steps : List FullComment.Step) (i : Nat) answer next,
          (f.run t steps)[i]? = some (answer, next) → next.kind = .fullComment) := by
  have sound := soundUpheld m
  refine ⟨?_, ?_, ?_⟩
  · intro seed c built
    exact ⟨_, seedAttributes built, soundRecords (upheldSeed sound built)⟩
  · intro drafts content p drafted built
    have all := upheldParagraph sound built (upheldDrafts sound drafts drafted)
    obtain ⟨_, rfl⟩ := Paragraph.buildOk built
    rw [paragraphFresh content]
    exact soundRecords all
  · intro drafts blocks info f drafted built
    obtain ⟨_, _, same⟩ := bindOk.mp built
    cases same
    have kind : (FullComment.ofBlocks blocks info).kind = .fullComment := Word.kindOfKind _
    exact ⟨kind, fun _ _ _ _ found =>
      (FullComment.runKind (upheldDrafts sound drafts drafted) found).trans kind⟩

end DocTree
