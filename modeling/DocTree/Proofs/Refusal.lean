import DocTree.Proofs.Attaching
import DocTree.Proofs.Nesting

/-! Refused content. A checked run looks at the kinds of content when it builds a paragraph or a
comment, and refuses what the check of the finished tree would report; an unchecked run takes it
and goes on. For one description the one refuses exactly if the other leaves a misplaced child,
and otherwise both leave the same tree. -/
namespace DocTree
open Comment

namespace Comment

def lines : Comment → List VerbatimBlockLine
  | .command form _ => form.lines
  | _ => []

def Lined (c : Comment) : Prop := ∀ line ∈ c.lines, line.header.kind = .verbatimBlockLine

def Typed (c : Comment) : Prop := Sound c ∧ Lined c

theorem typedKinded {c : Comment} (all : Everywhere Typed c) : Below Kinded c := by
  induction c using inductChildren with
  | step c ih =>
    obtain ⟨sound, lined⟩ := everywhereOwn all
    refine .node sound.kind fun d member => ?_
    cases c with
    | paragraph p => exact ih d member (everywhereContent all d member)
    | command form base =>
      rcases commandChild member with ⟨_, p, held, rfl⟩ | ⟨_, line, listed, rfl⟩
      · exact ih _ member (everywhereParagraph all held)
      · exact .node (lined line listed) (by simp [children])
    | _ => cases member

theorem rereadLines {c d : Comment} (h : Reread c d) : d.lines = c.lines := by
  induction h with
  | trans first second left right => exact right.trans left
  | _ => rfl

theorem linesBlock {c : Comment} (other : c.contentKind ≠ .verbatimBlock) : c.lines = [] := by
  cases c with
  | command form base => cases form <;> first | rfl | exact absurd rfl other
  | _ => rfl

theorem performLines {t} {step : Step} {c d : Comment} {answer}
    (h : c.perform t step = .ok (answer, d)) (all : Everywhere Cached c) :
    d.lines = c.lines ∨ step = .setLines d.lines := by
  by_cases block : c.contentKind = .verbatimBlock
  · cases c with
    | command form base =>
      cases form with
      | verbatimBlock closeName closeLoc lines =>
        cases step with
        | setLines lines => cases h; exact .inr rfl
        | hasNonBlankParagraph => exact .inl (rereadLines (nonBlankReread h all))
        | outline | json => exact .inl (rereadLines (settleReread h all))
        | arg | line | paramNames => exact .inl (by rw [answerKeeps h])
        | _ => cases h; exact .inl rfl
      | _ => cases block
    | _ => cases block
  · have other : d.contentKind ≠ .verbatimBlock := by
      rwa [changeContent (performChange (P := fun _ => True) h all)]
    exact .inl ((linesBlock other).trans (linesBlock block).symm)

theorem linedStable : Stable Lined :=
  stableKept fun related lined => by rwa [Lined, rereadLines related]

theorem typedStable : Stable Typed := stableAnd (soundUpheld .unchecked).stable linedStable

theorem typedCached {c : Comment} (all : Everywhere Typed c) : Everywhere Cached c :=
  everywhereImp (fun _ own => own.1.cached) all

def Step.Proper (step : Step) : Prop :=
  ∀ lines, step = .setLines lines → ∀ line ∈ lines, ∃ start text, line = .make start text

theorem performLined {t} {step : Step} {c d : Comment} {answer} (proper : step.Proper)
    (h : c.perform t step = .ok (answer, d)) (all : Everywhere Cached c) (lined : Lined c) :
    Lined d := by
  rcases performLines h all with same | set
  · unfold Lined
    rw [same]
    exact lined
  · intro line member
    obtain ⟨start, text, rfl⟩ := proper _ set line member
    exact Word.kindOfKind .verbatimBlockLine

theorem typedStep {t} {step : Step} {c d : Comment} {answer} (proper : step.Proper)
    (h : c.perform t step = .ok (answer, d)) (all : Everywhere Typed c) : Everywhere Typed d := by
  have cached := typedCached all
  have ⟨sound, lined⟩ := everywhereOwn all
  have own : Typed d :=
    ⟨(soundUpheld .unchecked).change (performChange h cached) sound,
      performLined proper h cached lined⟩
  have change : Change (Everywhere Typed) c d := performChange h cached
  exact changeEverywhere typedStable change own all

theorem everywhereAlone {P : Comment → Prop} {c : Comment} (own : P c) (bare : c.attached = {}) :
    Everywhere P c := by
  cases c with
  | text => exact .text own
  | inlineCommand => exact .inlineCommand own
  | startTag => exact .startTag own
  | endTag => exact .endTag own
  | paragraph p =>
    have none : p.content = [] := congrArg Attached.content bare
    exact .paragraph own (by simp [none])
  | command form base =>
    have none : base.paragraph = none := congrArg Attached.paragraph bare
    exact .command own (by simp [none])
  | verbatimBlockLine => exact .verbatimBlockLine own

theorem typedAlone {c : Comment} (sound : Sound c) (bare : c.attached = {}) :
    Everywhere Typed c := by
  refine everywhereAlone ⟨sound, ?_⟩ bare
  cases c with
  | command form base =>
    have none : form.lines = [] := congrArg Attached.lines bare
    simp [Lined, lines, none]
  | _ => simp [Lined, lines]

theorem paragraphTyped (content : List Comment) : Typed (.paragraph (.ofContent content)) :=
  ⟨(soundUpheld .unchecked).paragraph nofun, nofun⟩

theorem typedParagraph {content : List Comment} (all : ∀ c ∈ content, Everywhere Typed c) :
    Everywhere Typed (.paragraph (.ofContent content)) := by
  refine .paragraph (paragraphTyped content) ?_
  rw [Paragraph.ofContentContent]
  exact all

theorem takesParagraph {c : Comment} (takes : c.contentKind.allows .paragraph = true) :
    ∃ form base, c = .command form base ∧ form.showsParagraph = true ∧
      ∀ p, c.attach (.paragraph p) = (.node, .command form (base.setParagraph p)) := by
  cases c with
  | command form base => cases form <;> first | exact ⟨_, _, rfl, rfl, fun _ => rfl⟩ | cases takes
  | _ => cases takes

theorem typedAttach {form} {base : BlockCommand Comment} {p}
    (all : Everywhere Typed (.command form base)) (inner : Everywhere Typed (.paragraph p)) :
    Everywhere Typed (.command form (base.setParagraph p)) := by
  have own := everywhereOwn all
  refine .command ⟨(soundUpheld .unchecked).change (.attach trivial) own.1, own.2⟩ ?_
  rintro _ ⟨⟩
  exact inner

theorem leafFits {c : Comment} (leaf : c.children = []) : Below (fits · = true) c := by
  refine .node ?_ (by simp [leaf])
  cases c with
  | paragraph p => simp [fits, show p.content = [] from leaf]
  | _ => rfl

theorem rereadFits {c d : Comment} (h : Reread c d) (fit : Below (fits · = true) d) :
    Below (fits · = true) c := by
  induction h with
  | same => exact fit
  | trans first second left right => exact left (right fit)
  | text n => exact leafFits rfl
  | paragraph p => exact .node (belowOwn fit) fun e member => belowChild fit e member
  | @content h before c d after inside ih =>
    have kind : d.kind = c.kind := (rereadAgrees inside).kind
    have own := belowOwn fit
    have below := belowChild fit
    simp only [fits, List.all_append, List.all_cons, kind] at own
    simp only [children, List.mem_append, List.mem_cons, or_imp, forall_and, forall_eq] at below
    refine .node (by simpa only [fits, List.all_append, List.all_cons] using own) ?_
    simp only [children, List.mem_append, List.mem_cons, or_imp, forall_and, forall_eq]
    exact ⟨below.1, ih below.2.1, below.2.2⟩
  | @command form h args p q inside ih =>
    refine .node rfl fun e member => ?_
    rcases commandChild member with ⟨shows, _, ⟨⟩, rfl⟩ | ⟨_, line, _, rfl⟩
    · exact ih (belowChild fit _ (by simp [children, shows]))
    · exact leafFits rfl

theorem shapedFits {c : Comment} (shaped : Shaped .checked c) : fits c = true := by
  cases c with
  | paragraph p => exact shaped.built.2.2 rfl
  | _ => rfl

theorem everywhereFits {c : Comment} (all : Everywhere (fits · = true) c) :
    Below (fits · = true) c := by
  induction c using inductChildren with
  | step c ih =>
    exact .node (everywhereOwn all) fun d member =>
      ih d member (everywhereChild all (fun _ => rfl) d member)

theorem changeFits {c d : Comment} (h : Change (fun _ => False) c d)
    (fit : Below (fits · = true) d) : Below (fits · = true) c := by
  cases h with
  | read reread => exact rereadFits reread fit
  | @command form next base header args kind grows lines =>
    refine .node rfl fun e member => ?_
    have same : next.showsParagraph = form.showsParagraph := by
      cases form <;> cases next <;> cases kind <;> rfl
    rcases commandChild member with ⟨shows, p, held, rfl⟩ | ⟨_, line, _, rfl⟩
    · exact belowChild fit _ (by simp [children, same, shows, held])
    · exact leafFits rfl
  | attach attached => cases attached
  | _ => exact leafFits rfl

end Comment

/-- What a checked run may come to where an unchecked one gives `a`: the same, or a fault that
only checked runs look for. `bad` is what a refusal of content says of `a`. -/
inductive Checked {α : Type} (bad : α → Prop) (a : α) : Run α → Prop where
  | same : Checked bad a (.ok a)
  | overflow : Checked bad a (.error .addOverflow)
  | refused (found : bad a) : Checked bad a (.error .paragraphContent)

namespace Checked

theorem bind {α β : Type} {bad : α → Prop} {worse : β → Prop} {a : α} {b : β} {x : Run α}
    {f : α → Run β} (first : Checked bad a x) (spreads : bad a → worse b)
    (next : Checked worse b (f a)) : Checked worse b (x >>= f) := by
  cases first with
  | same => exact next
  | overflow => exact .overflow
  | refused found => exact .refused (spreads found)

abbrev Plain {α : Type} (x y : Run α) : Prop := ∀ a, y = .ok a → Checked (fun _ => False) a x

theorem plainSame {α : Type} (x : Run α) : Plain x x := by
  rintro a rfl
  exact .same

theorem plainBind {α β : Type} {x y : Run α} {f g : α → Run β} (first : Plain x y)
    (next : ∀ a, Plain (f a) (g a)) : Plain (x >>= f) (y >>= g) := by
  intro b ok
  obtain ⟨a, done, last⟩ := bindOk.mp ok
  exact .bind (first a done) id (next a b last)

end Checked

namespace Seed
open Checked

def kind : Seed → Kind
  | .text .. | .placedText .. => .text
  | .inlineCommand .. => .inlineCommand
  | .startTag .. => .startTag
  | .endTag .. => .endTag
  | .block .. | .placedBlock .. => .blockCommand
  | .param .. | .placedParam .. => .paramCommand
  | .tparam .. | .placedTParam .. => .tparamCommand
  | .verbatimBlock .. => .verbatimBlock
  | .verbatimLine .. => .verbatimLine
  | .verbatimBlockLine .. => .verbatimBlockLine
  | .placedParagraph .. => .paragraph

theorem addPlain (a b : UInt32) : Plain (Placed.add .checked a b) (Placed.add .unchecked a b) := by
  rintro _ ⟨⟩
  unfold Placed.add Mode.demand
  cases decide (a.toNat + b.toNat < 4294967296)
  · exact .overflow
  · exact .same

theorem buildPlain (t : CommandTable) (seed : Seed) :
    Plain (seed.build .checked t) (seed.build .unchecked t) := by
  have text (start : UInt32) (s : String) :
      Plain (Placed.text .checked start s) (Placed.text .unchecked start s) :=
    plainBind (addPlain _ _) fun _ => plainSame _
  have name (stop : UInt32) (s : String) :
      Plain (Placed.nameAfter .checked stop s) (Placed.nameAfter .unchecked stop s) := by
    unfold Placed.nameAfter
    split
    · exact plainSame _
    · exact plainBind (addPlain _ _) fun _ => plainBind (addPlain _ _) fun _ => plainSame _
  cases seed with
  | placedText start s => exact text start s
  | placedParagraph start s =>
    intro c ok
    obtain ⟨content, made, rest⟩ := bindOk.mp ok
    refine .bind (text start s content made) id ?_
    obtain ⟨stop, _, same⟩ := bindOk.mp made
    cases same
    have kind : (Comment.text (.make (.valid start) (.valid stop) s)).kind = .text :=
      Word.kindOfKind .text
    have inline : Paragraph.build .checked [.text (.make (.valid start) (.valid stop) s)] =
        Paragraph.build .unchecked [.text (.make (.valid start) (.valid stop) s)] := by
      simp [Paragraph.build, Mode.demand, kind, Kind.isInlineContent, Kind.isA, Category.first,
        Category.last, Kind.number]
    rw [inline]
    exact plainSame _ _ rest
  | placedBlock start s =>
    exact plainBind (addPlain _ _) fun _ => plainBind (addPlain _ _) fun _ => plainSame _
  | placedParam start s =>
    exact plainBind (addPlain _ _) fun _ => plainBind (plainSame _) fun _ =>
      plainBind (name _ _) fun _ => plainSame _
  | placedTParam start s =>
    exact plainBind (addPlain _ _) fun _ => plainBind (plainSame _) fun _ =>
      plainBind (name _ _) fun _ => plainSame _
  | _ => exact plainSame _

theorem buildBare {m t c} {seed : Seed} (h : seed.build m t = .ok c) :
    c.contentKind = seed.kind ∧ (c.attached = {} ∨
      ∃ start stop text, c = .paragraph (.ofContent [.text (.make start stop text)])) := by
  cases seed with
  | text | startTag | endTag | verbatimBlockLine => cases h; exact ⟨rfl, .inl rfl⟩
  | inlineCommand | block | param | tparam | verbatimBlock | verbatimLine =>
    obtain ⟨_, _, same⟩ := bindOk.mp h
    cases same
    exact ⟨rfl, .inl rfl⟩
  | placedText =>
    obtain ⟨_, _, same⟩ := bindOk.mp h
    cases same
    exact ⟨rfl, .inl rfl⟩
  | placedParagraph =>
    obtain ⟨_, text, rest⟩ := bindOk.mp h
    obtain ⟨_, _, same⟩ := bindOk.mp text
    cases same
    obtain ⟨_, built, same⟩ := bindOk.mp rest
    cases same
    rw [(Paragraph.buildOk built).2]
    exact ⟨rfl, .inr ⟨_, _, _, rfl⟩⟩
  | placedBlock =>
    obtain ⟨_, _, rest⟩ := bindOk.mp h
    obtain ⟨_, _, rest⟩ := bindOk.mp rest
    obtain ⟨_, _, same⟩ := bindOk.mp rest
    cases same
    exact ⟨rfl, .inl rfl⟩
  | placedParam | placedTParam =>
    obtain ⟨_, _, rest⟩ := bindOk.mp h
    obtain ⟨_, _, rest⟩ := bindOk.mp rest
    obtain ⟨args, _, same⟩ := bindOk.mp rest
    cases args <;> cases same <;> exact ⟨rfl, .inl rfl⟩

theorem buildTyped {m t c} {seed : Seed} (h : seed.build m t = .ok c) :
    Everywhere Comment.Typed c := by
  have all := Comment.upheldSeed (Comment.soundUpheld m) h
  rcases (buildBare h).2 with bare | ⟨start, stop, text, rfl⟩
  · exact Comment.typedAlone (Comment.everywhereOwn all) bare
  · refine Comment.typedParagraph fun d member => ?_
    cases List.mem_singleton.mp member
    exact Comment.typedAlone ⟨(Comment.cachedUpheld m).fresh (.text _ _ _), Word.kindOfKind _⟩ rfl

end Seed

def Draft.kind : Draft → Kind
  | .seed made _ => made.kind
  | .paragraph _ _ => .paragraph

mutual

/-- A description in which every paragraph that is attached is one, and is the only one that is
attached to a node that shows it. -/
inductive Draft.Proper : Draft → Prop where
  | seed {made actions} (acting : Action.Proper (made.kind.allows .paragraph) actions) :
      Draft.Proper (.seed made actions)
  | paragraph {content actions} (inside : ∀ d ∈ content, Draft.Proper d)
      (acting : Action.Proper false actions) : Draft.Proper (.paragraph content actions)

inductive Action.Proper : Bool → List Action → Prop where
  | nil {takes} : Action.Proper takes []
  | step {takes next rest} (lines : next.Proper) (later : Action.Proper takes rest) :
      Action.Proper takes (.step next :: rest)
  | setParagraph {d rest} (kind : d.kind = .paragraph) (proper : Draft.Proper d)
      (later : Action.Proper false rest) : Action.Proper true (.setParagraph d :: rest)

end

theorem draftKind {m t} {d : Draft} {c} (h : d.build m t = .ok c) : c.contentKind = d.kind := by
  cases d with
  | seed seed actions =>
    obtain ⟨_, start, acted⟩ := bindOk.mp h
    have all := upheldSeed (cachedUpheld m) start
    exact (actionsExtend acted all).2.trans (Seed.buildBare start).1
  | paragraph content actions =>
    obtain ⟨_, drafted, rest⟩ := bindOk.mp h
    obtain ⟨p, built, acted⟩ := bindOk.mp rest
    have cached := cachedUpheld m
    have all := upheldParagraph cached built (upheldDrafts cached content drafted)
    exact (actionsExtend acted all).2

def Bad (c : Comment) : Prop := ¬ Below (fits · = true) c

theorem actionsBad {m t as c d} (proper : Action.Proper false as)
    (h : Action.actAll m t as c = .ok d) (all : Everywhere Cached c) (bad : Bad c) : Bad d := by
  induction as generalizing c with
  | nil => cases h; exact bad
  | cons a rest ih =>
    obtain ⟨⟨_, next⟩, acted, others⟩ := bindOk.mp h
    cases proper with
    | @step _ step _ lines later =>
      have cached := upheldAct (cachedUpheld m) (.step step) acted all
      exact ih later others cached fun fit => bad (changeFits (performChange acted all) fit)

theorem contentBad {content : List Comment} {c : Comment} (member : c ∈ content) (bad : Bad c) :
    Bad (.paragraph (.ofContent content)) := by
  intro fit
  refine bad (belowChild fit c ?_)
  simp only [children, Paragraph.ofContentContent]
  exact member

theorem attachedBad {form : Form} (shows : form.showsParagraph = true) (base : BlockCommand Comment)
    {p : Paragraph Comment} (bad : Bad (.paragraph p)) :
    Bad (.command form (base.setParagraph p)) := by
  intro fit
  refine bad (belowChild fit _ ?_)
  simp [children, shows, BlockCommand.setParagraph]

theorem paragraphChecked (content : List Comment) :
    Checked (fun p => Bad (.paragraph p)) (.ofContent content)
      (Paragraph.build .checked content) := by
  unfold Paragraph.build Mode.demand
  cases inline : content.all (·.kind.isInlineContent) with
  | true => exact .same
  | false =>
    refine .refused fun fit => ?_
    have own := belowOwn fit
    simp only [fits, Paragraph.ofContentContent, inline] at own
    cases own

-- An unchecked run goes on with bad content. What a checked run refuses is found at the end only
-- if bad content stays where it is, and that is `actionsBad` for the actions that come after it.
mutual

theorem draftChecked {t c} (d : Draft) (proper : d.Proper) (h : d.build .unchecked t = .ok c) :
    Everywhere Typed c ∧ Checked Bad c (d.build .checked t) := by
  cases d with
  | seed made actions =>
    cases proper with
    | seed acting =>
      obtain ⟨start, built, acted⟩ := bindOk.mp h
      have shown := (Seed.buildBare built).1
      obtain ⟨typed, checked⟩ := actionsChecked actions acting (fun takes => by rwa [shown])
        (Seed.buildTyped built) acted
      exact ⟨typed, .bind (Seed.buildPlain t made start built) False.elim checked⟩
  | paragraph content actions =>
    cases proper with
    | paragraph inside acting =>
      obtain ⟨cs, drafted, rest⟩ := bindOk.mp h
      obtain ⟨p, built, acted⟩ := bindOk.mp rest
      obtain ⟨_, rfl⟩ := Paragraph.buildOk built
      obtain ⟨all, checkedAll⟩ := draftsChecked content inside drafted
      have start := typedParagraph all
      obtain ⟨typed, checked⟩ := actionsChecked actions acting nofun start acted
      have stays := actionsBad acting acted (typedCached start)
      refine ⟨typed, .bind checkedAll ?_ (.bind (paragraphChecked cs) stays checked)⟩
      rintro ⟨e, member, bad⟩
      exact stays (contentBad member bad)
termination_by structural d

theorem draftsChecked {t cs} (ds : List Draft) (proper : ∀ d ∈ ds, d.Proper)
    (h : Draft.buildAll .unchecked t ds = .ok cs) :
    (∀ c ∈ cs, Everywhere Typed c) ∧
      Checked (fun cs => ∃ c ∈ cs, Bad c) cs (Draft.buildAll .checked t ds) := by
  cases ds with
  | nil =>
    cases h
    exact ⟨nofun, .same⟩
  | cons d rest =>
    rw [List.forall_mem_cons] at proper
    obtain ⟨c, first, others⟩ := bindOk.mp h
    obtain ⟨cs, drafted, same⟩ := bindOk.mp others
    cases same
    obtain ⟨typed, checked⟩ := draftChecked d proper.1 first
    obtain ⟨typedAll, checkedAll⟩ := draftsChecked rest proper.2 drafted
    refine ⟨List.forall_mem_cons.mpr ⟨typed, typedAll⟩, ?_⟩
    refine .bind checked (fun bad => ⟨c, List.mem_cons_self, bad⟩) ?_
    refine .bind checkedAll ?_ .same
    rintro ⟨e, member, bad⟩
    exact ⟨e, List.mem_cons_of_mem _ member, bad⟩
termination_by structural ds

theorem actionsChecked {t c d takes} (as : List Action) (proper : Action.Proper takes as)
    (shown : takes = true → c.contentKind.allows .paragraph = true) (all : Everywhere Typed c)
    (h : Action.actAll .unchecked t as c = .ok d) :
    Everywhere Typed d ∧ Checked Bad d (Action.actAll .checked t as c) := by
  cases as with
  | nil =>
    cases h
    exact ⟨all, .same⟩
  | cons a rest =>
    obtain ⟨⟨answer, next⟩, acted, others⟩ := bindOk.mp h
    cases a with
    | step step =>
      cases proper with
      | step lines later =>
        have content := changeContent (actChange acted (typedCached all))
        obtain ⟨typed, checked⟩ := actionsChecked rest later (fun takes => by
          rw [content]
          exact shown takes) (typedStep lines acted all) others
        refine ⟨typed, ?_⟩
        exact .bind (Checked.plainSame _ _ acted) False.elim checked
    | setParagraph paragraph =>
      cases proper with
      | setParagraph kind proper later =>
        obtain ⟨p, built, attached⟩ := bindOk.mp acted
        obtain ⟨inner, checkedInner⟩ := draftChecked paragraph proper built
        have content := (draftKind built).trans kind
        cases p with
        | paragraph p =>
          obtain ⟨form, base, rfl, shows, takes⟩ := takesParagraph (shown rfl)
          rw [takes p] at attached
          cases attached
          have start := typedAttach all inner
          obtain ⟨typed, checked⟩ := actionsChecked rest later nofun start others
          have stays := actionsBad later others (typedCached start)
          have attaching : Checked (fun result => Bad result.2)
              (.node, .command form (base.setParagraph p))
              (Action.act .checked t (.setParagraph paragraph) (.command form base)) := by
            refine .bind checkedInner (attachedBad shows base) ?_
            rw [takes p]
            exact .same
          exact ⟨typed, .bind attaching stays checked⟩
        | command form base => cases form <;> cases content
        | _ => cases content
termination_by structural as

end

namespace FullComment

def ofDrafts (m : Mode) (t : CommandTable) (drafts : List Draft) (info : DeclInfo) :
    Run FullComment := do
  FullComment.build m (← Draft.buildAll m t drafts) info

variable {t : CommandTable} {drafts : List Draft} {info : DeclInfo} {f : FullComment}

theorem ofBlocksKind (blocks : List Comment) (info : DeclInfo) :
    (ofBlocks blocks info).kind = .fullComment := Word.kindOfKind .fullComment

theorem buildChecked (blocks : List Comment) (info : DeclInfo) :
    build .checked blocks info =
      if blocks.all (·.kind.isBlockContent) then .ok (ofBlocks blocks info)
      else .error .commentContent := by
  unfold build Mode.demand
  cases blocks.all (·.kind.isBlockContent) <;> rfl

theorem nestedBlocks {blocks : List Comment} (typed : ∀ c ∈ blocks, Everywhere Typed c) :
    (ofBlocks blocks info).Nested ↔ blocks.all (·.kind.isBlockContent) = true ∧
      ∀ c ∈ blocks, Below (fits · = true) c := by
  unfold Nested
  rw [ofBlocksKind, List.all_eq_true]
  constructor
  · intro nested
    exact ⟨fun c listed => (nested c listed).1, fun c listed =>
      (belowAllowing (typedKinded (typed c listed))).mpr (nested c listed).2⟩
  · intro ⟨kinds, fit⟩ c listed
    exact ⟨kinds c listed, (belowAllowing (typedKinded (typed c listed))).mp (fit c listed)⟩

theorem ofDraftsChecked (proper : ∀ d ∈ drafts, d.Proper)
    (released : ofDrafts .unchecked t drafts info = .ok f) :
    f.kind = .fullComment ∧
    (ofDrafts .checked t drafts info = .ok f ∧ f.Nested ∨
      ofDrafts .checked t drafts info = .error .addOverflow ∨
      (ofDrafts .checked t drafts info = .error .paragraphContent ∨
        ofDrafts .checked t drafts info = .error .commentContent) ∧ ¬ f.Nested) := by
  obtain ⟨blocks, drafted, built⟩ := bindOk.mp released
  obtain ⟨_, _, same⟩ := bindOk.mp built
  cases same
  obtain ⟨typed, checked⟩ := draftsChecked drafts proper drafted
  refine ⟨ofBlocksKind _ _, ?_⟩
  rw [nestedBlocks typed]
  unfold ofDrafts
  cases again : Draft.buildAll .checked t drafts with
  | ok others =>
    rw [again] at checked
    cases checked
    have fit : ∀ c ∈ blocks, Below (fits · = true) c := fun c listed =>
      everywhereFits (everywhereImp (fun _ => shapedFits)
        (upheldDrafts (shapedUpheld .checked) drafts again c listed))
    by_cases kinds : blocks.all (·.kind.isBlockContent) = true
    · exact .inl ⟨(buildChecked blocks info).trans (if_pos kinds), kinds, fit⟩
    · exact .inr (.inr ⟨.inr ((buildChecked blocks info).trans (if_neg kinds)),
        fun nested => kinds nested.1⟩)
  | error fault =>
    rw [again] at checked
    cases checked with
    | overflow => exact .inr (.inl rfl)
    | refused found =>
      obtain ⟨c, listed, bad⟩ := found
      exact .inr (.inr ⟨.inl rfl, fun nested => bad (nested.2 c listed)⟩)

theorem refusedMisplaced (proper : ∀ d ∈ drafts, d.Proper)
    (released : ofDrafts .unchecked t drafts info = .ok f)
    (sums : ofDrafts .checked t drafts info ≠ .error .addOverflow) :
    ((ofDrafts .checked t drafts info = .error .paragraphContent ∨
        ofDrafts .checked t drafts info = .error .commentContent) ↔
      ∃ parent child, .misplacedChild parent child ∈ f.violations) ∧
    ((∀ fault, ofDrafts .checked t drafts info ≠ .error fault) →
      ofDrafts .checked t drafts info = .ok f ∧ ∀ e ∈ f.events, e.depth ≤ 2) := by
  obtain ⟨kind, checked⟩ := ofDraftsChecked proper released
  rw [misplacedReported]
  rcases checked with ⟨same, nested⟩ | overflow | ⟨refused, misplaced⟩
  · rw [same]
    exact ⟨by simp [nested], fun _ => ⟨rfl, nestedDepth kind nested⟩⟩
  · exact absurd overflow sums
  · refine ⟨iff_of_true refused misplaced, fun none => ?_⟩
    rcases refused with fault | fault <;> exact absurd fault (none _)

def strayDrafts : List Draft :=
  [.paragraph [.seed (.text (.valid 0) (.valid 2) "hi") []] [],
    .seed (.block (.valid 4) (.valid 10) (.id 6))
      [.setParagraph (.paragraph
        [.seed (.text (.valid 11) (.valid 12) " ") [.step .addNewline],
          .seed (.param (.valid 12) (.valid 18) (.id 11))
            [.setParagraph (.paragraph [] []), .step (.setIndex 0)]] [.step .isBlank])],
    .seed (.verbatimBlock (.valid 20) (.valid 25) (.id 35))
      [.step (.setLines [.make (.valid 26) "one"])]]

theorem strayRefused : ∃ f, ofDrafts .unchecked .empty strayDrafts (.ofDecl (.constant "" .plain)) =
      .ok f ∧ (∀ d ∈ strayDrafts, d.Proper) ∧
    ofDrafts .checked .empty strayDrafts (.ofDecl (.constant "" .plain)) ≠ .error .addOverflow ∧
    ∃ parent child, .misplacedChild parent child ∈ f.violations := by
  have refused : ofDrafts .checked .empty strayDrafts (.ofDecl (.constant "" .plain)) =
      .error .paragraphContent := rfl
  have sums : ofDrafts .checked .empty strayDrafts (.ofDecl (.constant "" .plain)) ≠
      .error .addOverflow := by
    rw [refused]
    nofun
  have text (start stop : Location) (text : String) (actions : List Action)
      (acting : Action.Proper false actions) :
      (Draft.seed (.text start stop text) actions).Proper := .seed acting
  have proper : ∀ d ∈ strayDrafts, d.Proper := by
    simp only [strayDrafts, List.forall_mem_cons]
    refine ⟨.paragraph ?_ .nil, .seed (.setParagraph rfl (.paragraph ?_ (.step nofun .nil)) .nil),
      .seed (.step ?_ .nil), nofun⟩
    · exact List.forall_mem_singleton.mpr (text _ _ _ _ .nil)
    · simp only [List.forall_mem_cons]
      exact ⟨text _ _ _ _ (.step nofun .nil),
        .seed (.setParagraph rfl (.paragraph nofun .nil) (.step nofun .nil)), nofun⟩
    · rintro lines ⟨⟩
      exact List.forall_mem_singleton.mpr ⟨_, _, rfl⟩
  exact ⟨_, rfl, proper, sums, (refusedMisplaced proper rfl sums).1.mp (.inl refused)⟩

end FullComment
end DocTree
