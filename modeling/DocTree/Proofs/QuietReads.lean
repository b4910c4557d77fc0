import DocTree.Proofs.BlankFills
import DocTree.Proofs.Rebinding

/-! Runs of reads. A read leaves the tree as it was but for whitespace caches, and answers as if
it were the first one. The first blank read of a paragraph fills its own cache and those of the
texts it looks at, and a later one fills nothing. -/
namespace DocTree
open Layout (textCache paragraphCache)

namespace Word
open DocTree.Field

def bare (c : Cache) (w : Word) : Word := (w.setFlag c.value false).setFlag c.valid false

theorem filledBare {c : Cache} (sound : c.Sound) (fresh : Bool) (w : Word) :
    (w.filled c fresh).bare c = w.bare c := by
  unfold filled
  split
  · rfl
  · unfold bare setFlag set
    congr 1
    apply wordExt
    intro i _
    simp only [setFlagBit sound.valid, setFlagBit sound.value]
    split
    · rfl
    · split <;> rfl

theorem bareGet {c : Cache} {g : Field} (valid : c.valid.Apart g) (value : c.value.Apart g)
    (w : Word) : (w.bare c).get g = w.get g := by
  unfold bare setFlag
  rw [getOther valid, getOther value]

theorem bareKind {c : Cache} (sound : c.Sound) (w : Word) : (w.bare c).kind = w.kind := by
  unfold bare setFlag
  rw [kindOther (apartSymm sound.kindValid), kindOther (apartSymm sound.kindValue)]

end Word

def Header.bare (c : Cache) (h : Header) : Header := { h with word := h.word.bare c }

namespace Comment

mutual

def bare : Comment → Comment
  | .text n => .text { n with header := n.header.bare textCache }
  | .paragraph ⟨h, content⟩ => .paragraph ⟨h.bare paragraphCache, bareAll content⟩
  | .command form ⟨h, args, some ⟨ph, content⟩⟩ =>
    .command form ⟨h, args, some ⟨ph.bare paragraphCache, bareAll content⟩⟩
  | c => c
termination_by structural c => c

def bareAll : List Comment → List Comment
  | [] => []
  | c :: rest => bare c :: bareAll rest
termination_by structural cs => cs

end

theorem bareAll_eq_map (cs : List Comment) : bareAll cs = cs.map bare := by
  induction cs with
  | nil => rfl
  | cons c rest ih => simp only [bareAll, List.map_cons, ih]

theorem rereadBare {c d} (h : Reread c d) : d.bare = c.bare := by
  induction h with
  | same => rfl
  | trans first second left right => exact right.trans left
  | text n =>
    simp only [bare, Text.filled, Header.bare, Word.filledBare textCacheSound]
  | paragraph p =>
    simp only [bare, Paragraph.filled, Header.bare, Word.filledBare paragraphCacheSound]
  | content inside ih => simp only [bare, bareAll_eq_map, List.map_append, List.map_cons, ih]
  | @command form h args p q inside ih =>
    have same := Comment.paragraph.inj ih
    simp only [Paragraph.mk.injEq] at same
    simp only [bare, same]

theorem bareHeader (c : Comment) : c.bare.header = c.cache?.elim c.header (c.header.bare ·) := by
  rcases c with _ | _ | _ | _ | ⟨h, content⟩ | ⟨form, h, args, _ | ⟨ph, content⟩⟩ | _ <;> rfl

theorem bareChildren (c : Comment) : c.bare.children = c.children.map bare := by
  rcases c with _ | _ | _ | _ | ⟨h, content⟩ | ⟨form, h, args, _ | ⟨ph, content⟩⟩ | _
  case paragraph => exact bareAll_eq_map content
  all_goals try rfl
  all_goals
    simp only [bare, children]
    cases form.showsParagraph with
    | true => rfl
    | false => simp [Function.comp_def, bare]

theorem bareDisplay (c : Comment) : c.bare.display = c.display := by
  rcases c with _ | _ | _ | _ | ⟨h, content⟩ | ⟨form, h, args, _ | ⟨ph, content⟩⟩ | _
  case paragraph =>
    have count : (bareAll content).length = content.length := by
      rw [bareAll_eq_map, List.length_map]
    exact congrArg (fun n : Nat => s!"Paragraph({n} inline(s))") count
  case command.some => cases form <;> rfl
  all_goals rfl

theorem bareBound (c : Comment) : c.bare.bound? = c.bound? := by
  rcases c with _ | _ | _ | _ | ⟨h, content⟩ | ⟨form, h, args, _ | ⟨ph, content⟩⟩ | _
  case command.some =>
    cases form with
    | param index => cases index <;> rfl
    | tparam position => cases position <;> rfl
    | _ => rfl
  all_goals rfl

theorem bareAt (c : Comment) (path : List Nat) : c.bare.at? path = (c.at? path).map bare := by
  induction path generalizing c with
  | nil => rfl
  | cons i path ih =>
    simp only [at?, bareChildren, List.getElem?_map]
    cases c.children[i]? with
    | none => rfl
    | some d => exact ih d

structure Untouched (c d : Comment) : Prop where
  bare : d.bare = c.bare
  kind : d.kind = c.kind
  location : d.location = c.location
  span : d.span = c.span
  shown : d.display = c.display
  args : d.args? = c.args?
  bound : d.bound? = c.bound?
  children : d.children.map Comment.bare = c.children.map Comment.bare
  cache : d.cache? = c.cache?
  fields (field : Field) (apart : ∀ cache ∈ c.cache?,
    cache.valid.Apart field ∧ cache.value.Apart field) : d.header.get field = c.header.get field

theorem cacheSound {c : Comment} {cache} (kind : c.cache? = some cache) : cache.Sound := by
  cases c with
  | text => cases kind; exact textCacheSound
  | paragraph => cases kind; exact paragraphCacheSound
  | _ => cases kind

theorem bareCache (c : Comment) : c.bare.cache? = c.cache? := by
  rcases c with _ | _ | _ | _ | ⟨h, content⟩ | ⟨form, h, args, _ | ⟨ph, content⟩⟩ | _ <;> rfl

theorem bareArgs (c : Comment) : c.bare.args? = c.args? := by
  rcases c with _ | _ | _ | _ | ⟨h, content⟩ | ⟨form, h, args, _ | ⟨ph, content⟩⟩ | _ <;> rfl

theorem bareWord (c : Comment) {field : Field} (apart : ∀ cache ∈ c.cache?,
    cache.valid.Apart field ∧ cache.value.Apart field) :
    c.bare.header.get field = c.header.get field := by
  rw [bareHeader]
  cases kind : c.cache? with
  | none => rfl
  | some cache => exact Word.bareGet (apart cache kind).1 (apart cache kind).2 _

theorem bareAgrees (c : Comment) : c.header.Agrees c.bare.header := by
  rw [bareHeader]
  cases kind : c.cache? with
  | none => exact Header.agreesSame _
  | some cache => exact ⟨Word.bareKind (cacheSound kind) _, rfl, rfl⟩

theorem bareUntouched {c d : Comment} (same : d.bare = c.bare) : Untouched c d := by
  have seen {β : Type} {F : Comment → β} (blind : ∀ e, F e.bare = F e) : F d = F c := by
    rw [← blind d, same, blind]
  have cache : d.cache? = c.cache? := seen bareCache
  refine ⟨same, seen fun e => (bareAgrees e).kind, seen fun e => (bareAgrees e).location,
    seen fun e => (bareAgrees e).span, seen bareDisplay, seen bareArgs, seen bareBound, ?_, cache,
    fun field apart => ?_⟩
  · rw [← bareChildren, same, bareChildren]
  · rw [← bareWord d (cache ▸ apart), same, bareWord c apart]

theorem foldReread {β : Type} {F : Comment → List β → β}
    (blind : ∀ {c d} below, Everywhere Cached c → Reread c d → F d below = F c below) {c d}
    (h : Reread c d) (all : Everywhere Cached c) : fold F d = fold F c := by
  have node {c d} (h : Reread c d) (all : Everywhere Cached c)
      (below : d.children.map (fold F) = c.children.map (fold F)) : fold F d = fold F c := by
    rw [fold_eq F d, below, fold_eq F c]
    exact blind _ all h
  induction h with
  | same => rfl
  | trans first second left right =>
    exact (right (rereadEverywhere cachedStable first all)).trans (left all)
  | text n => exact node (.text n) all rfl
  | paragraph p => exact node (.paragraph p) all rfl
  | @content h before c d after inside ih =>
    refine node (.content inside) all ?_
    simp only [children, List.map_append, List.map_cons,
      ih (everywhereContent all c (by simp))]
  | @command form h args p q inside ih =>
    refine node (.command inside) all ?_
    simp only [children]
    cases form.showsParagraph with
    | true => exact congrArg (fun own => [own]) (ih (everywhereParagraph all rfl))
    | false => rfl

theorem rereadEvents {c d} (h : Reread c d) (all : Everywhere Cached c) (depth : Nat) :
    d.eventsAt depth = c.eventsAt depth := by
  refine congrFun (foldReread (fun {c d} below _ h => ?_) h all) depth
  have same : d.kind = c.kind := (rereadAgrees h).kind
  simp only [same]

theorem paragraphNode (t : CommandTable) {p : Paragraph Comment}
    (all : Everywhere Cached (.paragraph p)) : snapshotNode t (.paragraph p) =
      .ok ((Snapshot.leaf p.header.kind.name "").withAttribute "whitespace"
        (Record.truth (freshBlank (.paragraph p)))) := by
  obtain ⟨q, read, _⟩ := paragraphHolds all
  exact bindOk.mpr ⟨_, read, rfl⟩

theorem rereadNode {t : CommandTable} {c d} (h : Reread c d) (all : Everywhere Cached c) :
    d.snapshotNode t = c.snapshotNode t := by
  have paragraphs {p q} (h : Reread (.paragraph p) (.paragraph q))
      (all : Everywhere Cached (.paragraph p)) :
      snapshotNode t (.paragraph q) = snapshotNode t (.paragraph p) := by
    rw [paragraphNode t all, paragraphNode t (rereadEverywhere cachedStable h all), rereadFresh h]
    exact congrArg (fun k : Kind => Except.ok ((Snapshot.leaf k.name "").withAttribute _ _))
      (rereadAgrees h).kind
  induction h with
  | same => rfl
  | trans first second left right =>
    exact (right (rereadEverywhere cachedStable first all)).trans (left all)
  | text n =>
    exact congrArg (fun k : Kind => Except.ok (Snapshot.leaf k.name n.text))
      (Word.filledKind textCacheSound _ _)
  | paragraph p => exact paragraphs (.paragraph p) all
  | content inside => exact paragraphs (.content inside) all
  | @command form => cases form <;> rfl

theorem rereadSnapshot {t : CommandTable} {c d} (h : Reread c d) (all : Everywhere Cached c) :
    d.snapshot t = c.snapshot t :=
  foldReread (fun _ all h => by rw [rereadNode h all]) h all

theorem mapReread {β : Type} {F : Comment → β}
    (same : ∀ {c d}, Everywhere Cached c → Reread c d → F d = F c) {cs ds : List Comment}
    (h : List.Forall₂ Reread cs ds) (all : ∀ c ∈ cs, Everywhere Cached c) :
    ds.map F = cs.map F := by
  induction h with
  | nil => rfl
  | cons head tail ih =>
    rw [List.forall_mem_cons] at all
    rw [List.map_cons, List.map_cons, same all.1 head, ih all.2]

def blankAnswer (c : Comment) : Answer :=
  if c.cache?.isSome then .truth c.freshBlank else .refused

def nonBlankAnswer : Comment → Answer
  | .command _ base => .truth (base.paragraph.any fun p => !freshBlank (.paragraph p))
  | _ => .refused

theorem blankAnswered {c : Comment} (all : Everywhere Cached c) :
    ∃ next, c.performBlank = .ok (c.blankAnswer, next) := by
  unfold blankAnswer
  cases kind : c.cache? with
  | some cache =>
    obtain ⟨next, read, _⟩ := blankRead kind all
    exact ⟨next, read⟩
  | none =>
    cases c with
    | text | paragraph => cases kind
    | _ => exact ⟨_, rfl⟩

theorem nonBlankAnswered {c : Comment} (all : Everywhere Cached c) :
    ∃ next, c.performNonBlank = .ok (c.nonBlankAnswer, next) := by
  cases c with
  | command form base =>
    obtain ⟨h, args, _ | p⟩ := base
    · exact ⟨_, rfl⟩
    · obtain ⟨q, read, _⟩ := paragraphHolds (everywhereParagraph all rfl)
      exact ⟨_, bindOk.mpr ⟨_, bindOk.mpr ⟨_, read, rfl⟩, rfl⟩⟩
  | _ => exact ⟨_, rfl⟩

theorem rereadBlank {c d} (h : Reread c d) : d.blankAnswer = c.blankAnswer := by
  unfold blankAnswer
  rw [(rereadAges h).cache, rereadFresh h]

theorem rereadNonBlank {c d} (h : Reread c d) : d.nonBlankAnswer = c.nonBlankAnswer := by
  induction h with
  | trans first second left right => exact right.trans left
  | command inside => exact congrArg (fun blank => Answer.truth !blank) (rereadFresh inside)
  | _ => rfl

end Comment

namespace FullComment
open Comment

inductive Reading where
  | inside (i : Nat) (place : List Nat) (read : Comment.Read)
  | snapshot
  | outline
  | json
  | walk
  | violations
  | copy (i : Nat)
  deriving DecidableEq, Repr

inductive Reading.Reply where
  | absent
  | node (answer : Comment.Answer)
  | snapshot (taken : Snapshot)
  | tree (answer : Answer)
  | copy (block : Option Comment)

def Reading.Reply.bare : Reading.Reply → Reading.Reply
  | .copy block => .copy (block.map Comment.bare)
  | reply => reply

def readNode (t : CommandTable) (c : Comment) : Comment.Read → Run Reading.Reply
  | .blank => do return .node (← c.performBlank).1
  | .nonBlank => do return .node (← c.performNonBlank).1
  | .snapshot => do return .snapshot (← c.snapshot t)

def visit (t : CommandTable) (step : Step) (f : FullComment) : Run (Reading.Reply × FullComment) := do
  let (answer, g) ← f.perform t step
  return (.tree answer, g)

def read (m : Mode) (t : CommandTable) (f : FullComment) : Reading → Run (Reading.Reply × FullComment)
  | .inside i place read =>
    match (Root.tree f).part? (i :: place) with
    | none => .ok (.absent, f)
    | some c => do
      let reply ← readNode t c read
      return (reply, { f with blocks := f.blocks.modify i (Comment.readInside m t read place) })
  | .snapshot => do return (.snapshot (← f.snapshot t), ← f.settle)
  | .outline => f.visit t .outline
  | .json => f.visit t .json
  | .walk => f.visit t .walk
  | .violations => f.visit t .violations
  | .copy i => .ok (.copy f.blocks[i]?, f)

def readAll (m : Mode) (t : CommandTable) (f : FullComment) :
    List Reading → Run (List Reading.Reply × FullComment)
  | [] => .ok ([], f)
  | r :: rest => do
    let (reply, g) ← f.read m t r
    let (replies, h) ← g.readAll m t rest
    return (reply :: replies, h)

/-- What a reading answers when it comes first, caches in a copy aside. -/
def answer (m : Mode) (t : CommandTable) (f : FullComment) (r : Reading) : Run Reading.Reply := do
  return (← f.read m t r).1.bare

theorem readNodeTotal (t : CommandTable) {c : Comment} (all : Everywhere Cached c)
    (read : Comment.Read) : ∃ reply, readNode t c read = .ok reply := by
  cases read with
  | blank =>
    obtain ⟨next, ok⟩ := blankAnswered all
    exact ⟨_, bindOk.mpr ⟨_, ok, rfl⟩⟩
  | nonBlank =>
    obtain ⟨next, ok⟩ := nonBlankAnswered all
    exact ⟨_, bindOk.mpr ⟨_, ok, rfl⟩⟩
  | snapshot =>
    obtain ⟨s, ok⟩ := snapshotHolds t c all
    exact ⟨_, bindOk.mpr ⟨s, ok, rfl⟩⟩

theorem readNodeReread {t : CommandTable} {c d : Comment} (h : Reread c d)
    (all : Everywhere Cached c) (read : Comment.Read) : readNode t d read = readNode t c read := by
  have after := rereadEverywhere cachedStable h all
  cases read with
  | blank =>
    obtain ⟨_, early⟩ := blankAnswered all
    obtain ⟨_, late⟩ := blankAnswered after
    simp only [readNode, early, late, rereadBlank h]
    rfl
  | nonBlank =>
    obtain ⟨_, early⟩ := nonBlankAnswered all
    obtain ⟨_, late⟩ := nonBlankAnswered after
    simp only [readNode, early, late, rereadNonBlank h]
    rfl
  | snapshot => simp only [readNode, rereadSnapshot h all]

variable {m : Mode} {t : CommandTable} {f g : FullComment}

structure Later (f g : FullComment) : Prop extends Read f g where
  info : g.info = f.info

theorem laterSame (f : FullComment) : Later f f := ⟨readSame f, rfl⟩

theorem laterTrans {h : FullComment} (first : Later f g) (second : Later g h) : Later f h where
  header := second.header.trans first.header
  blocks := rereadsTrans first.blocks second.blocks
  info := second.info.trans first.info

theorem laterPart (later : Later f g) (place : List Nat) :
    Option.Rel Reread ((Root.tree f).part? place) ((Root.tree g).part? place) := by
  cases place with
  | nil => exact .none
  | cons i place => exact rereadPart (rereadAll later.blocks f.header []) (i :: place)

theorem visited {step : Step} {answer} (ok : f.perform t step = .ok (answer, g)) :
    f.visit t step = .ok (.tree answer, g) := bindOk.mpr ⟨_, ok, rfl⟩

section

variable (all : ∀ c ∈ f.blocks, Everywhere Cached c)
include all

theorem laterSnapshot (later : Later f g) : g.snapshot t = f.snapshot t := by
  have blocks : g.blocks.map (Comment.snapshot t) = f.blocks.map (Comment.snapshot t) :=
    mapReread (fun all h => rereadSnapshot h all) later.blocks all
  have taken (cs : List Comment) :
      cs.mapM (Comment.snapshot t) = (cs.map (Comment.snapshot t)).mapM id := by
    rw [List.mapM_map]
    rfl
  unfold snapshot kind declName
  rw [taken, blocks, ← taken, later.header, later.info]

theorem laterEvents (later : Later f g) : g.events = f.events := by
  have blocks : g.blocks.map Comment.events = f.blocks.map Comment.events :=
    mapReread (fun all h => rereadEvents h all 0) later.blocks all
  unfold events
  rw [List.flatMap_def, blocks, ← List.flatMap_def]

theorem laterViolations (later : Later f g) : g.violations = f.violations := by
  have blocks : g.blocks.map (·.violationsUnder f.header) =
      f.blocks.map (·.violationsUnder f.header) :=
    mapReread (fun _ h => rereadRules h _ _ (Header.agreesSame _)) later.blocks all
  unfold violations
  rw [later.header, List.flatMap_def, blocks, ← List.flatMap_def]

theorem readTotal (r : Reading) : ∃ reply g, f.read m t r = .ok (reply, g) ∧ Later f g := by
  have settles : ∃ g, f.settle = .ok g ∧ Later f g := by
    obtain ⟨g, settled⟩ := settleTotal all
    have read := settleRead settled all
    obtain ⟨_, _, same⟩ := bindOk.mp settled
    cases same
    exact ⟨_, settled, read, rfl⟩
  obtain ⟨s, taken⟩ := snapshotTotal t all
  obtain ⟨g, settled, later⟩ := settles
  cases r with
  | inside i place read =>
    cases here : (Root.tree f).part? (i :: place) with
    | none => exact ⟨.absent, f, by simp only [FullComment.read, here], laterSame f⟩
    | some c =>
      obtain ⟨reply, ok⟩ := readNodeTotal t (Root.partEverywhere (r := .tree f) all here) read
      refine ⟨reply, { f with blocks := f.blocks.modify i (readInside m t read place) }, ?_, ?_⟩
      · simp only [FullComment.read, here, ok]
        rfl
      · have blocks := rereadsModify i fun c member =>
          insideReread (m := m) (t := t) read place (all c member)
        exact ⟨⟨rfl, blocks⟩, rfl⟩
  | snapshot => exact ⟨_, g, bindOk.mpr ⟨s, taken, bindOk.mpr ⟨g, settled, rfl⟩⟩, later⟩
  | outline | json =>
    exact ⟨_, g, visited (bindOk.mpr ⟨s, taken, bindOk.mpr ⟨g, settled, rfl⟩⟩), later⟩
  | walk | violations | copy => exact ⟨_, f, rfl, laterSame f⟩

theorem answerLater (later : Later f g) (r : Reading) : g.answer m t r = f.answer m t r := by
  have after := rereadsEverywhere cachedStable later.blocks all
  obtain ⟨e, early⟩ := settleTotal all
  obtain ⟨l, late⟩ := settleTotal after
  cases r with
  | inside i place read =>
    have part := laterPart later (i :: place)
    cases here : (Root.tree f).part? (i :: place) with
    | none =>
      rw [here] at part
      generalize there : (Root.tree g).part? (i :: place) = found at part
      cases part
      simp only [answer, FullComment.read, here, there]
      rfl
    | some c =>
      rw [here] at part
      generalize there : (Root.tree g).part? (i :: place) = found at part
      cases part with
      | some reread =>
        have cached := Root.partEverywhere (r := .tree f) all here
        obtain ⟨reply, ok⟩ := readNodeTotal t cached read
        simp only [answer, FullComment.read, here, there, readNodeReread reread cached, ok]
        rfl
  | snapshot =>
    simp only [answer, FullComment.read, laterSnapshot all later, early, late]
    cases f.snapshot t <;> rfl
  | outline | json =>
    simp only [answer, FullComment.read, visit, perform, laterSnapshot all later, early, late]
    cases f.snapshot t <;> rfl
  | walk =>
    simp only [answer, FullComment.read, visit, perform, laterEvents all later]
    rfl
  | violations =>
    simp only [answer, FullComment.read, visit, perform, laterViolations all later]
    rfl
  | copy i =>
    have blocks : g.blocks.map bare = f.blocks.map bare :=
      mapReread (fun _ h => rereadBare h) later.blocks all
    have same := congrArg (·[i]?) blocks
    simp only [List.getElem?_map] at same
    exact congrArg (fun block => Except.ok (Reading.Reply.copy block)) same

end

theorem readAllAnswers (all : ∀ c ∈ f.blocks, Everywhere Cached c) (readings : List Reading) :
    ∃ replies g, f.readAll m t readings = .ok (replies, g) ∧ Later f g ∧
      replies.map (fun reply => .ok reply.bare) = readings.map (f.answer m t) := by
  induction readings generalizing f with
  | nil => exact ⟨[], f, rfl, laterSame f, rfl⟩
  | cons r rest ih =>
    obtain ⟨reply, g, ok, later⟩ := readTotal (m := m) (t := t) all r
    obtain ⟨replies, h, others, last, same⟩ :=
      ih (rereadsEverywhere cachedStable later.blocks all)
    refine ⟨reply :: replies, h, ?_, laterTrans later last, ?_⟩
    · exact bindOk.mpr ⟨_, ok, bindOk.mpr ⟨_, others, rfl⟩⟩
    · have first : f.answer m t r = .ok reply.bare := bindOk.mpr ⟨_, ok, rfl⟩
      have early : rest.map (g.answer m t) = rest.map (f.answer m t) :=
        List.map_congr_left fun r _ => answerLater all later r
      rw [List.map_cons, List.map_cons, same, early, first]

theorem readFills (all : ∀ c ∈ f.blocks, Everywhere Cached c) {i place p}
    (here : (Root.tree f).part? (i :: place) = some (.paragraph p)) :
    ∃ g, f.read m t (.inside i place .blank) = .ok (.node (.truth (freshBlank (.paragraph p))), g) ∧
      (p.cachedBlank? ≠ none → g = f) ∧
      (p.cachedBlank? = none → Fills (LooksAt (i :: place) p.content) (Root.tree f).part?
        (Root.tree g).part?) := by
  have cached := Root.partEverywhere (r := .tree f) all here
  -- the tree as one paragraph, with its blocks for content, takes the read like any other
  have whole : part? (i :: place) (.paragraph ⟨f.header, f.blocks⟩) = some (.paragraph p) := here
  refine ⟨{ f with blocks := f.blocks.modify i (readInside m t .blank place) }, ?_, ?_, ?_⟩
  · obtain ⟨next, ok⟩ := blankAnswered cached
    simp only [FullComment.read, here, readNode, ok]
    rfl
  · intro set
    have kept := insideKept (m := m) (t := t) whole cached set
    have blocks := (Paragraph.mk.inj (Comment.paragraph.inj kept)).2
    exact congrArg (fun blocks => FullComment.mk f.header blocks f.info) blocks
  · intro unset
    have fills := insideFills (m := m) (t := t) whole cached unset
    refine ⟨fun q looked => ?_, fun q other => ?_⟩
    · cases q with
      | nil => exact absurd (List.prefix_nil.mp (looksInside looked)) (List.cons_ne_nil i place)
      | cons k q => exact fills.filled (k :: q) looked
    · cases q with
      | nil => rfl
      | cons k q => exact fills.kept (k :: q) other

structure Quiet (f g : FullComment) : Prop where
  header : g.header = f.header
  info : g.info = f.info
  blocks : g.blocks.map Comment.bare = f.blocks.map Comment.bare
  nodes (path : List Nat) : Option.Rel Untouched (f.at? path) (g.at? path)

theorem laterQuiet (all : ∀ c ∈ f.blocks, Everywhere Cached c) (later : Later f g) :
    Quiet f g := by
  have blocks : g.blocks.map bare = f.blocks.map bare :=
    mapReread (fun _ h => rereadBare h) later.blocks all
  refine ⟨later.header, later.info, blocks, fun path => ?_⟩
  have same : (g.at? path).map bare = (f.at? path).map bare := by
    cases path with
    | nil => rfl
    | cons i path =>
      have each (cs : List Comment) : (cs[i]?.bind (Comment.at? path)).map bare =
          (cs.map bare)[i]?.bind (Comment.at? path) := by
        rw [List.getElem?_map]
        cases cs[i]? with
        | none => rfl
        | some c => exact (bareAt c path).symm
      show (g.blocks[i]?.bind (Comment.at? path)).map bare =
        (f.blocks[i]?.bind (Comment.at? path)).map bare
      rw [each, each, blocks]
  generalize f.at? path = c, g.at? path = d at same
  cases c with
  | none =>
    rw [Option.map_eq_none_iff.mp same]
    exact .none
  | some c =>
    obtain ⟨d, rfl, own⟩ := Option.map_eq_some_iff.mp same
    exact .some (bareUntouched own)

theorem readsQuiet (made : Made m (.tree f)) (t : CommandTable) :
    (∀ readings, ∃ replies g, f.readAll m t readings = .ok (replies, g) ∧ Quiet f g ∧
      replies.map (fun reply => .ok reply.bare) = readings.map (f.answer m t)) ∧
    ∀ i place p, (Root.tree f).part? (i :: place) = some (.paragraph p) →
      ∃ g, f.read m t (.inside i place .blank) =
          .ok (.node (.truth (freshBlank (.paragraph p))), g) ∧
        (p.cachedBlank? ≠ none → g = f) ∧
        (p.cachedBlank? = none →
          Fills (LooksAt (i :: place) p.content) (Root.tree f).part? (Root.tree g).part?) := by
  have all := madeCached made
  refine ⟨fun readings => ?_, fun i place p here => readFills all here⟩
  obtain ⟨replies, g, ok, later, answers⟩ := readAllAnswers (m := m) (t := t) all readings
  exact ⟨replies, g, ok, laterQuiet all later, answers⟩

def spacedParagraph : Comment :=
  .paragraph (.ofContent ([" ", "x", "y"].map fun content =>
    .text (.make (.valid 0) (.valid 1) content)))

theorem spacedMade (m : Mode) : ∀ c ∈ [spacedParagraph], Made m (.node c) := by
  have text : ∀ c ∈ [" ", "x", "y"].map fun content =>
      Comment.text (.make (.valid 0) (.valid 1) content), Made m (.node c) := by
    intro c member
    obtain ⟨content, _, rfl⟩ := List.mem_map.mp member
    exact @Made.seed m .empty _ (.text (.valid 0) (.valid 1) content) rfl
  have paragraph : Made m (.node spacedParagraph) := .paragraph text (by cases m <;> rfl)
  simpa using paragraph

def spacedInfo : DeclInfo := .ofDecl (.constant "f" .plain)

theorem spacedQuiet : ∃ f, FullComment.build .checked [spacedParagraph] spacedInfo = .ok f ∧
    Made .checked (.tree f) ∧
    (∃ replies g, f.readAll .checked .empty [.snapshot, .inside 0 [] .blank, .copy 0] =
      .ok (replies, g) ∧ Quiet f g) ∧
    ∃ g, f.read .checked .empty (.inside 0 [] .blank) = .ok (.node (.truth false), g) ∧
      ((Root.tree g).part? [0, 1]).bind cachedBlank? = some false ∧
      ((Root.tree g).part? [0, 2]).bind cachedBlank? = none := by
  have made : Made .checked (.tree (ofBlocks [spacedParagraph] spacedInfo)) :=
    .tree (spacedMade .checked) rfl
  obtain ⟨runs, fills⟩ := readsQuiet made .empty
  obtain ⟨replies, g, ok, quiet, _⟩ := runs [.snapshot, .inside 0 [] .blank, .copy 0]
  obtain ⟨h, read, _, filled⟩ := fills 0 [] _ rfl
  have caches := filled (by decide)
  refine ⟨_, rfl, made, ⟨replies, g, ok, quiet⟩, h, read, ?_, ?_⟩
  · obtain ⟨n, here, cached⟩ := caches.filled [0, 1] (.text (j := 1) rfl (by decide))
    cases here
    exact cached
  · refine (caches.kept [0, 2] fun looks => ?_).trans rfl
    cases (@looksBelow [0] [2] _).mp looks with
    | text _ blank => exact absurd blank (by decide)

end FullComment
end DocTree
