import DocTree.Node.Draft
import DocTree.Node.View
import DocTree.Proofs.Reads
import DocTree.Proofs.Spans

/-! Building nodes and acting on them. `Change` lists what one action can do to a node. In
every case the header keeps its kind, its location and the start of its span, and the stop
only moves forward. What constructors establish and changes keep holds of every node that
is built, and of every node it holds. -/
namespace DocTree
open Layout (textCache paragraphCache)

namespace Header

structure Extends (h later : Header) : Prop where
  kind : later.kind = h.kind
  location : later.location = h.location
  start : later.span.start = h.span.start
  stop : h.span.stop ≤ later.span.stop

theorem extendsSame (h : Header) : h.Extends h := ⟨rfl, rfl, rfl, Nat.le_refl _⟩

theorem extendsTrans {h k l : Header} (first : h.Extends k) (second : k.Extends l) : h.Extends l :=
  ⟨second.kind.trans first.kind, second.location.trans first.location,
    second.start.trans first.start, Nat.le_trans first.stop second.stop⟩

theorem extendsSet {f : Field} (apart : f.Apart Layout.kind) (h : Header) (value : UInt32) :
    h.Extends (h.set f value) :=
  ⟨Word.kindOther apart h.word value, rfl, rfl, Nat.le_refl _⟩

theorem extendsExtend (h : Header) (stop : Location) : h.Extends (h.extend stop) :=
  ⟨rfl, rfl, Span.extendStart _ _, Span.extendLeft _ _⟩

end Header

theorem Mode.demandOk {m : Mode} {holds : Bool} {fault : Fault} :
    m.demand holds fault = .ok () ↔ (m = .checked → holds = true) := by
  cases m <;> cases holds <;> simp [demand]

namespace Paragraph

theorem buildOk {m content p} (h : build m content = .ok p) :
    (m = .checked → content.all (·.kind.isInlineContent)) ∧ p = ofContent content := by
  obtain ⟨_, demanded, same⟩ := bindOk.mp h
  exact ⟨Mode.demandOk.mp demanded, (Except.ok.inj same).symm⟩

theorem ofContentContent (content : List Comment) : (ofContent content).content = content := by
  cases content <;> rfl

end Paragraph

namespace Comment
open Header

/-- What one action can do to a node, `P` being what is known of an attached paragraph. -/
inductive Change (P : Comment → Prop) : Comment → Comment → Prop where
  | read {c d} (reread : Reread c d) : Change P c d
  | text (n : Text) :
      Change P (.text n) (.text { n with header := n.header.setFlag Layout.trailingNewline true })
  | inlineCommand {n : InlineCommand} {header} (grows : n.header.Extends header) :
      Change P (.inlineCommand n) (.inlineCommand { n with header })
  | startTag {tag next : StartTag} (grows : tag.header.Extends next.header)
      (name : next.name = tag.name) : Change P (.startTag tag) (.startTag next)
  | endTag {tag : EndTag} {header} (grows : tag.header.Extends header) :
      Change P (.endTag tag) (.endTag { tag with header })
  | command {form next base header args} (kind : next.kind = form.kind)
      (grows : base.header.Extends header)
      (lines : next.lines = form.lines ∨
        ∀ last, next.lines.getLast? = some last → last.header.span.stop ≤ header.span.stop) :
      Change P (.command form base) (.command next ⟨header, args, base.paragraph⟩)
  | attach {form base p} (attached : P (.paragraph p)) :
      Change P (.command form base) (.command form (base.setParagraph p))

theorem changeSame {P} (c : Comment) : Change P c c := .read (.same c)

theorem newlineChange {P c next} (h : c.addTrailingNewline? = some next) : Change P c next := by
  have grows (header : Header) : header.Extends (header.setFlag Layout.trailingNewline true) :=
    extendsSet (by decide) header _
  cases c <;> cases h
  · exact .text _
  · exact .inlineCommand (grows _)
  · exact .startTag (grows _) rfl
  · exact .endTag (grows _)

theorem modifyOk {f} {c next : Comment} (h : c.modifyBase? f = some next) :
    ∃ form base, c = .command form base ∧ next = .command form (f base) := by
  cases c with
  | command form base => cases form <;> cases h <;> exact ⟨_, base, rfl, rfl⟩
  | _ => cases h

theorem argsChange {P args c next} (h : c.modifyBase? (·.setArgs args) = some next) :
    Change P c next := by
  have grows (base : BlockCommand Comment) : base.header.Extends (base.setArgs args).header := by
    unfold BlockCommand.setArgs
    split
    · exact extendsExtend _ _
    · exact extendsSame _
  obtain ⟨form, base, rfl, rfl⟩ := modifyOk h
  exact .command rfl (grows base) (.inl rfl)

theorem linesChange {P lines c next} (h : c.setLines? lines = some next) : Change P c next := by
  cases c with
  | command form base =>
    cases form with
    | verbatimBlock closeName closeLoc old =>
      cases h
      refine .command rfl ?_ (.inr ?_)
      · split
        · exact extendsExtend _ _
        · exact extendsSame _
      · intro last held
        rw [show lines.getLast? = some last from held]
        exact Span.extendRight _ _
    | _ => cases h
  | _ => cases h

theorem closeChange {P name loc c next} (h : c.setClose? name loc = some next) :
    Change P c next := by
  cases c with
  | command form base =>
    cases form <;> cases h
    exact .command rfl (extendsSame _) (.inl rfl)
  | _ => cases h

theorem answerKeeps {α c next answer} {x : Run α} {f : α → Answer}
    (h : (do return (f (← x), c)) = (.ok (answer, next) : Run (Answer × Comment))) : next = c := by
  obtain ⟨_, _, same⟩ := bindOk.mp h
  cases same
  rfl

theorem answerChange {P α c next answer} {x : Run α} {f : α → Answer}
    (h : (do return (f (← x), c)) = (.ok (answer, next) : Run (Answer × Comment))) :
    Change P c next := by
  rw [answerKeeps h]
  exact changeSame c

theorem directionChange {P} (form : Form) (base : BlockCommand Comment) (d : Direction)
    (explicit : Bool) :
    Change P (.command form base) (.command form (base.setDirection d explicit)) :=
  .command rfl (extendsTrans (extendsSet (by decide) base.header d.code)
    (extendsSet (by decide) _ _)) (.inl rfl)

theorem paramChange {P step form base answer next}
    (h : performParam step form base = .ok (answer, next)) :
    Change P (.command form base) next := by
  unfold performParam at h
  split at h
  · cases h
    exact directionChange _ base _ _
  · obtain ⟨form, made, same⟩ := bindOk.mp h
    cases same
    cases Form.withIndexOk made
    exact .command rfl (extendsSame _) (.inl rfl)
  · exact answerChange h
  · exact answerChange h
  · exact answerChange h
  · obtain ⟨form, made, same⟩ := bindOk.mp h
    cases same
    cases Form.withPositionOk made
    exact .command rfl (extendsSame _) (.inl rfl)
  · exact answerChange h
  · exact answerChange h
  · obtain ⟨_, _, found⟩ := bindOk.mp h
    exact answerChange found
  · cases h
    exact changeSame _

theorem tagChange {P step tag answer next} (h : performTag step tag = .ok (answer, next)) :
    Change P (.startTag tag) next := by
  unfold performTag at h
  split at h
  · cases h
    refine .startTag ?_ rfl
    unfold StartTag.setAttributes
    split
    · exact extendsExtend _ _
    · exact extendsSame _
  · cases h
    exact .startTag (extendsExtend _ _) rfl
  · cases h
    exact .startTag (extendsSet (by decide) _ _) rfl
  · exact answerChange h
  · cases h
    exact changeSame _

theorem blankReread {c answer next} (h : c.performBlank = .ok (answer, next))
    (all : Everywhere Cached c) : Reread c next := by
  cases c with
  | text n =>
    obtain ⟨read, done, same⟩ := bindOk.mp h
    cases done.symm.trans (Text.readHolds (everywhereOwn all))
    cases same
    exact .text n
  | paragraph p =>
    obtain ⟨q, read, related, _⟩ := paragraphHolds all
    obtain ⟨_, done, same⟩ := bindOk.mp h
    cases done.symm.trans read
    cases same
    exact related
  | _ => cases h; exact .same _

theorem nonBlankReread {c answer next} (h : c.performNonBlank = .ok (answer, next))
    (all : Everywhere Cached c) : Reread c next := by
  cases c with
  | command form base =>
    obtain ⟨_, after, read, related, _⟩ := nonBlankHolds all
    obtain ⟨_, done, same⟩ := bindOk.mp h
    cases done.symm.trans read
    cases same
    exact related
  | _ => cases h; exact .same _

theorem settleReread {α c answer next} {x : Run α} {f : α → Answer}
    (h : (do return (f (← x), ← settle c)) = (.ok (answer, next) : Run (Answer × Comment)))
    (all : Everywhere Cached c) : Reread c next := by
  obtain ⟨d, settled, related, _⟩ := settleHolds c all
  obtain ⟨_, _, rest⟩ := bindOk.mp h
  obtain ⟨_, done, same⟩ := bindOk.mp rest
  cases done.symm.trans settled
  cases same
  exact related

theorem changedChange {P c answer next} {made : Option Comment}
    (change : ∀ d, made = some d → Change P c d) (h : c.changed made = (answer, next)) :
    Change P c next := by
  cases made with
  | none => cases h; exact changeSame c
  | some d => cases h; exact change _ rfl

theorem performChange {P t step c answer next} (h : c.perform t step = .ok (answer, next))
    (all : Everywhere Cached c) : Change P c next := by
  unfold perform at h
  split at h
  · cases h; exact changeSame c
  · cases h; exact changeSame c
  · exact changedChange (fun _ => newlineChange) (Except.ok.inj h)
  · exact changedChange (fun _ => argsChange) (Except.ok.inj h)
  · exact changedChange (fun _ => linesChange) (Except.ok.inj h)
  · exact changedChange (fun _ => closeChange) (Except.ok.inj h)
  · exact .read (blankReread h all)
  · exact .read (nonBlankReread h all)
  · unfold performArg at h
    split at h
    · exact answerChange h
    · cases h; exact changeSame c
  · unfold performLine at h
    split at h
    · exact answerChange h
    · cases h; exact changeSame c
  · cases h; exact changeSame c
  · exact answerChange h
  · exact .read (settleReread h all)
  · exact .read (settleReread h all)
  · split at h
    · exact paramChange h
    · exact tagChange h
    · cases h; exact changeSame c

theorem attachChange {P c d answer next} (attached : P d) (h : c.attach d = (answer, next)) :
    Change P c next := by
  cases d with
  | paragraph p =>
    refine changedChange (fun next held => ?_) h
    obtain ⟨form, base, rfl, rfl⟩ := modifyOk held
    exact .attach attached
  | _ => cases h; exact changeSame c

theorem actChange {m t c answer next} {a : Action} (h : a.act m t c = .ok (answer, next))
    (all : Everywhere Cached c) : Change (fun _ => True) c next := by
  cases a with
  | step step => exact performChange h all
  | setParagraph d =>
    obtain ⟨p, _, same⟩ := bindOk.mp h
    exact attachChange trivial (Except.ok.inj same)

theorem changeHeader {P c d} (h : Change P c d) : c.header.Extends d.header := by
  cases h with
  | read reread =>
    induction reread with
    | trans first second left right => exact extendsTrans left right
    | text n => exact ⟨Word.filledKind textCacheSound _ _, rfl, rfl, Nat.le_refl _⟩
    | paragraph p => exact ⟨Word.filledKind paragraphCacheSound _ _, rfl, rfl, Nat.le_refl _⟩
    | _ => exact extendsSame _
  | text n => exact extendsSet (by decide) n.header _
  | inlineCommand grows => exact grows
  | startTag grows name => exact grows
  | endTag grows => exact grows
  | command kind grows lines => exact grows
  | attach attached => exact extendsExtend _ _

theorem rereadOwn {P c d} (stable : Stable P) (h : Reread c d) (own : P c) : P d := by
  induction h with
  | same c => exact own
  | trans first second left right => exact right (left own)
  | text n => exact stable.text n own
  | paragraph p => exact stable.paragraph p own
  | content inside ih => exact stable.content _ _ _ _ _ inside own
  | command inside ih => exact stable.command _ _ _ _ _ inside own

inductive Fresh : Comment → Prop where
  | text (start stop : Location) (text : String) : Fresh (.text (.make start stop text))
  | inlineCommand (start stop : Location) (id : UInt16) (style : RenderStyle)
      (args : List Argument) : Fresh (.inlineCommand (.make start stop id style args))
  | startTag (start : Location) (name : String) : Fresh (.startTag (.make start name))
  | endTag (start stop : Location) (name : String) : Fresh (.endTag (.make start stop name))
  | command (form : Form) (bare : form.lines = []) (start stop : Location) (id : UInt16) :
      Fresh (.command form (.ofKind form.kind start stop id))
  | verbatimBlockLine (start : Location) (text : String) :
      Fresh (.verbatimBlockLine (.make start text))

/-- A property of single nodes that constructors establish and changes keep. -/
structure Upheld (m : Mode) (P : Comment → Prop) : Prop where
  stable : Stable P
  cached : ∀ {c}, P c → Cached c
  fresh : ∀ {c}, Fresh c → P c
  paragraph : ∀ {content}, (m = .checked → content.all (·.kind.isInlineContent)) →
    P (.paragraph (.ofContent content))
  change : ∀ {c d}, Change (fun _ => True) c d → P c → P d

theorem everywhereImp {P Q : Comment → Prop} (imp : ∀ c, P c → Q c) {c} (h : Everywhere P c) :
    Everywhere Q c := by
  induction h with
  | text own => exact .text (imp _ own)
  | inlineCommand own => exact .inlineCommand (imp _ own)
  | startTag own => exact .startTag (imp _ own)
  | endTag own => exact .endTag (imp _ own)
  | paragraph own content ih => exact .paragraph (imp _ own) ih
  | command own paragraph ih => exact .command (imp _ own) ih
  | verbatimBlockLine own => exact .verbatimBlockLine (imp _ own)

theorem upheldCached {m P c} (upheld : Upheld m P) (all : Everywhere P c) :
    Everywhere Cached c :=
  everywhereImp (fun _ => upheld.cached) all

theorem changeImp {P Q : Comment → Prop} (imp : ∀ c, P c → Q c) {c d} (h : Change P c d) :
    Change Q c d := by
  cases h with
  | read reread => exact .read reread
  | text n => exact .text n
  | inlineCommand grows => exact .inlineCommand grows
  | startTag grows name => exact .startTag grows name
  | endTag grows => exact .endTag grows
  | command kind grows lines => exact .command kind grows lines
  | attach attached => exact .attach (imp _ attached)

theorem changeEverywhere {P c d} (stable : Stable P) (h : Change (Everywhere P) c d) (own : P d)
    (all : Everywhere P c) : Everywhere P d := by
  cases h with
  | read reread => exact rereadEverywhere stable reread all
  | text => exact .text own
  | inlineCommand => exact .inlineCommand own
  | startTag => exact .startTag own
  | endTag => exact .endTag own
  | command => exact .command own fun p held => everywhereParagraph all held
  | attach attached =>
    refine .command own ?_
    rintro _ ⟨⟩
    exact attached

theorem upheldChange {m P c d} (upheld : Upheld m P) (h : Change (Everywhere P) c d)
    (all : Everywhere P c) : Everywhere P d :=
  have any : Change (fun _ => True) c d := changeImp (fun _ _ => trivial) h
  changeEverywhere upheld.stable h (upheld.change any (everywhereOwn all)) all

theorem upheldFresh {m P c} (upheld : Upheld m P) (h : Fresh c) : Everywhere P c := by
  have own := upheld.fresh h
  cases h with
  | text => exact .text own
  | inlineCommand => exact .inlineCommand own
  | startTag => exact .startTag own
  | endTag => exact .endTag own
  | command => exact .command own nofun
  | verbatimBlockLine => exact .verbatimBlockLine own

theorem upheldParagraph {m P content p} (upheld : Upheld m P)
    (h : Paragraph.build m content = .ok p) (all : ∀ c ∈ content, Everywhere P c) :
    Everywhere P (.paragraph p) := by
  obtain ⟨fits, rfl⟩ := Paragraph.buildOk h
  refine .paragraph (upheld.paragraph fits) ?_
  rw [Paragraph.ofContentContent]
  exact all

theorem upheldParam {m P} (upheld : Upheld m P) (start stop : Location) (id : UInt16) :
    Everywhere P (.param start stop id) :=
  upheldChange upheld (directionChange _ _ .input false)
    (upheldFresh upheld (.command (.param none) rfl start stop id))

theorem upheldArgs {m P c} (upheld : Upheld m P) (all : Everywhere P c) (args : List Argument) :
    Everywhere P ((c.modifyBase? (·.setArgs args)).getD c) := by
  cases named : c.modifyBase? (·.setArgs args) with
  | none => exact all
  | some d => exact upheldChange upheld (argsChange named) all

theorem upheldSeed {m P t} (upheld : Upheld m P) {seed : Seed} {c} (h : seed.build m t = .ok c) :
    Everywhere P c := by
  have fresh {c} := upheldFresh upheld (c := c)
  cases seed with
  | text | startTag | endTag | verbatimBlockLine => cases h; exact fresh (by constructor)
  | inlineCommand =>
    obtain ⟨_, _, same⟩ := bindOk.mp h
    cases same
    exact fresh (.inlineCommand _ _ _ _ _)
  | block | tparam | verbatimBlock | verbatimLine =>
    obtain ⟨_, _, same⟩ := bindOk.mp h
    cases same
    exact fresh (.command _ rfl _ _ _)
  | param =>
    obtain ⟨_, _, same⟩ := bindOk.mp h
    cases same
    exact upheldParam upheld _ _ _
  | placedText =>
    obtain ⟨_, _, same⟩ := bindOk.mp h
    cases same
    exact fresh (.text _ _ _)
  | placedParagraph =>
    obtain ⟨_, text, rest⟩ := bindOk.mp h
    obtain ⟨_, _, same⟩ := bindOk.mp text
    cases same
    obtain ⟨_, built, same⟩ := bindOk.mp rest
    cases same
    refine upheldParagraph upheld built ?_
    simpa using fresh (.text _ _ _)
  | placedBlock =>
    obtain ⟨_, _, rest⟩ := bindOk.mp h
    obtain ⟨_, _, rest⟩ := bindOk.mp rest
    obtain ⟨_, _, same⟩ := bindOk.mp rest
    cases same
    exact fresh (.command _ rfl _ _ _)
  | placedParam =>
    obtain ⟨_, _, rest⟩ := bindOk.mp h
    obtain ⟨_, _, rest⟩ := bindOk.mp rest
    obtain ⟨args, _, same⟩ := bindOk.mp rest
    cases args with
    | nil => cases same; exact upheldParam upheld _ _ _
    | cons => cases same; exact upheldArgs upheld (upheldParam upheld _ _ _) _
  | placedTParam =>
    obtain ⟨_, _, rest⟩ := bindOk.mp h
    obtain ⟨_, _, rest⟩ := bindOk.mp rest
    obtain ⟨args, _, same⟩ := bindOk.mp rest
    cases args with
    | nil => cases same; exact fresh (.command (.tparam []) rfl _ _ _)
    | cons => cases same; exact upheldArgs upheld (fresh (.command (.tparam []) rfl _ _ _)) _

/-! A draft's actions attach paragraphs that are drafts themselves, so drafts and actions are
one induction. -/

mutual

theorem upheldDraft {m P t c} (upheld : Upheld m P) (d : Draft) (h : d.build m t = .ok c) :
    Everywhere P c := by
  cases d with
  | seed seed actions =>
    obtain ⟨_, start, acted⟩ := bindOk.mp h
    exact upheldActions upheld actions acted (upheldSeed upheld start)
  | paragraph content actions =>
    obtain ⟨_, drafted, rest⟩ := bindOk.mp h
    obtain ⟨p, built, acted⟩ := bindOk.mp rest
    exact upheldActions upheld actions acted
      (upheldParagraph upheld built (upheldDrafts upheld content drafted))
termination_by structural d

theorem upheldDrafts {m P t cs} (upheld : Upheld m P) (ds : List Draft)
    (h : Draft.buildAll m t ds = .ok cs) : ∀ c ∈ cs, Everywhere P c := by
  cases ds with
  | nil => cases h; simp
  | cons d rest =>
    obtain ⟨c, first, others⟩ := bindOk.mp h
    obtain ⟨cs, drafted, same⟩ := bindOk.mp others
    cases same
    intro e member
    rcases List.mem_cons.mp member with rfl | later
    · exact upheldDraft upheld d first
    · exact upheldDrafts upheld rest drafted e later
termination_by structural ds

theorem upheldAct {m P t c answer next} (upheld : Upheld m P) (a : Action)
    (h : a.act m t c = .ok (answer, next)) (all : Everywhere P c) : Everywhere P next := by
  cases a with
  | step step => exact upheldChange upheld (performChange h (upheldCached upheld all)) all
  | setParagraph d =>
    obtain ⟨p, built, same⟩ := bindOk.mp h
    exact upheldChange upheld (attachChange (upheldDraft upheld d built) (Except.ok.inj same)) all
termination_by structural a

theorem upheldActions {m P t c d} (upheld : Upheld m P) (as : List Action)
    (h : Action.actAll m t as c = .ok d) (all : Everywhere P c) : Everywhere P d := by
  cases as with
  | nil => cases h; exact all
  | cons a rest =>
    obtain ⟨⟨_, next⟩, acted, others⟩ := bindOk.mp h
    exact upheldActions upheld rest others (upheldAct upheld a acted all)
termination_by structural as

end

theorem upheldStep {m P t} (upheld : Upheld m P) (a : Action) {c} (all : Everywhere P c) :
    Everywhere P (c.step m t a).2 := by
  unfold step
  cases acted : a.act m t c with
  | error fault => exact all
  | ok result => exact upheldAct upheld a acted all

theorem cachedUpheld (m : Mode) : Upheld m Cached where
  stable := cachedStable
  cached := id
  fresh h := by
    cases h with
    | text start stop text => exact Word.holdsNew textCacheSound .text _
    | _ => exact trivial
  paragraph {content} _ := by
    cases content with
    | nil => exact ⟨by decide, by decide, by decide⟩
    | cons c rest => exact Word.holdsNew paragraphCacheSound .paragraph _
  change h own := by
    cases h with
    | read reread => exact rereadOwn cachedStable reread own
    | text n =>
      exact Word.holdsOther (by decide) (by decide) (by decide) own _
    | _ => exact trivial

theorem changeFresh {P c d} (h : Change P c d) : freshBlank d = freshBlank c := by
  cases h with
  | read reread => exact rereadFresh reread
  | _ => rfl

theorem changeContent {P c d} (h : Change P c d) : d.contentKind = c.contentKind := by
  cases h with
  | read reread =>
    induction reread with
    | trans first second left right => exact right.trans left
    | _ => rfl
  | command kind grows lines => exact kind
  | _ => rfl

structure Sound (c : Comment) : Prop where
  cached : Cached c
  kind : c.kind = c.contentKind

theorem changeSound {P c d} (h : Change P c d) (cached : Cached d) (sound : Sound c) :
    Sound d := by
  refine ⟨cached, ?_⟩
  rw [changeContent h, ← sound.kind]
  exact (changeHeader h).kind

theorem soundUpheld (m : Mode) : Upheld m Sound where
  stable := stableKept fun {c d} related sound =>
    have change : Change (fun _ => True) c d := .read related
    changeSound change (rereadOwn cachedStable related sound.cached) sound
  cached := Sound.cached
  fresh h := by
    refine ⟨(cachedUpheld m).fresh h, ?_⟩
    have set {f : Field} (apart : f.Apart Layout.kind) (h : Header) (v : UInt32) :
        (h.set f v).kind = h.kind := (extendsSet apart h v).kind
    cases h with
    | text | startTag | endTag | verbatimBlockLine => exact Word.kindOfKind _
    | inlineCommand start stop id style args =>
      exact (set (by decide) _ _).trans
        ((set (by decide) _ _).trans (Word.kindOfKind .inlineCommand))
    | command form bare start stop id =>
      exact (set (by decide) _ _).trans (Word.kindOfKind form.kind)
  paragraph {content} fits := by
    refine ⟨(cachedUpheld m).paragraph fits, ?_⟩
    cases content with
    | nil => decide
    | cons c rest => exact Word.kindOfKind .paragraph
  change change sound := changeSound change ((cachedUpheld m).change change sound.cached) sound

inductive Rebound : Comment → Comment → Prop where
  | same (c) : Rebound c c
  | form {form next base} (kind : next.kind = form.kind) (lines : next.lines = form.lines) :
      Rebound (.command form base) (.command next base)

theorem bindRebound {info c binding d after} (h : bind info c = .ok (binding, d, after)) :
    Rebound c d := by
  unfold bind at h
  split at h
  · split at h
    · obtain ⟨form, made, same⟩ := bindOk.mp h
      cases same
      cases Form.withIndexOk made
      exact .form rfl rfl
    · cases h
      exact .same _
  · split at h
    · obtain ⟨form, made, same⟩ := bindOk.mp h
      cases same
      cases Form.withPositionOk made
      exact .form rfl rfl
    · cases h
      exact .same _
  · cases h
    exact .same _

theorem reboundChange {P c d} (h : Rebound c d) : Change P c d := by
  cases h with
  | same => exact changeSame c
  | form kind lines => exact .command kind (Header.extendsSame _) (.inl lines)

theorem resolveRebound {documented info blocks r}
    (h : resolveFrom documented info blocks = .ok r) : List.Forall₂ Rebound blocks r.blocks := by
  induction blocks generalizing documented info r with
  | nil => cases h; exact .nil
  | cons c rest ih =>
    obtain ⟨_, bound, h⟩ := bindOk.mp h
    obtain ⟨_, resolved, same⟩ := bindOk.mp h
    cases same
    exact .cons (bindRebound bound) (ih resolved)

end Comment

namespace FullComment
open Comment

theorem stepBlocks (t : CommandTable) (f : FullComment) (s : Step)
    (all : ∀ c ∈ f.blocks, Everywhere Cached c) :
    (f.step t s).2.header = f.header ∧ (List.Forall₂ Reread f.blocks (f.step t s).2.blocks ∨
      List.Forall₂ Rebound f.blocks (f.step t s).2.blocks) := by
  unfold step
  cases performed : f.perform t s with
  | error fault => exact ⟨rfl, .inl (rereadsSame f.blocks)⟩
  | ok result =>
    rcases performRead performed all with read | ⟨problems, resolved⟩
    · exact ⟨read.header, .inl read.blocks⟩
    · obtain ⟨r, bound, same⟩ := bindOk.mp resolved
      have next := Except.ok.inj same
      rw [← congrArg Prod.snd next]
      exact ⟨rfl, .inr (resolveRebound bound)⟩

theorem upheldBlocks {m P} (upheld : Upheld m P) (t : CommandTable) (f : FullComment) (s : Step)
    (all : ∀ c ∈ f.blocks, Everywhere P c) : ∀ c ∈ (f.step t s).2.blocks, Everywhere P c := by
  rcases (stepBlocks t f s fun c member => upheldCached upheld (all c member)).2 with read | bound
  · exact rereadsEverywhere upheld.stable read all
  · exact relatedAll (fun rebound => upheldChange upheld (reboundChange rebound)) bound all

end FullComment
end DocTree
