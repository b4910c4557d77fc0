import DocTree.Proofs.Building

/-! How far a node reaches after whatever was done with it. Its span starts where it was built
to, and stops at the furthest place that was ever offered to it, in whichever order. So a node
reaches to the end of its arguments or attributes, except for an inline command: it takes its
arguments as they are when it is built, and its span as well. -/
namespace DocTree

namespace Span

theorem extendInvalid (s : Span) : s.extend .invalid = s := rfl

theorem eqOf {a b : Span} (start : a.start = b.start) (stop : a.stop = b.stop) : a = b := by
  cases a
  cases b
  simp_all

theorem extendEither (s : Span) (stop : Location) :
    (s.extend stop).stop = s.stop ∨ (s.extend stop).stop = stop := by
  unfold extend
  split <;> simp

structure Furthest (s : Span) (offers : List Location) (stop : Location) : Prop where
  offered : stop ∈ s.stop :: offers
  bound : ∀ x ∈ s.stop :: offers, x ≤ stop

variable {s : Span} {offers : List Location}

theorem furthestUnique {others : List Location} {a b : Location}
    (same : ∀ x, x ∈ offers ↔ x ∈ others) (left : s.Furthest offers a)
    (right : s.Furthest others b) : a = b := by
  have both (x : Location) : x ∈ s.stop :: offers ↔ x ∈ s.stop :: others := by
    rw [List.mem_cons, List.mem_cons, same]
  have forward : a ≤ b := right.bound a ((both a).mp left.offered)
  have back : b ≤ a := left.bound b ((both b).mpr right.offered)
  exact Location.rank_inj.mp (Nat.le_antisymm forward back)

theorem furthestCons {first stop : Location} (later : (s.extend first).Furthest offers stop) :
    s.Furthest (first :: offers) stop where
  offered := by
    rcases List.mem_cons.mp later.offered with here | listed
    · rcases extendEither s first with own | own <;> simp [here, own]
    · simp [listed]
  bound x member := by
    have reached : (s.extend first).stop ≤ stop := later.bound _ (by simp)
    rcases List.mem_cons.mp member with rfl | member
    · exact Nat.le_trans (extendLeft s first) reached
    rcases List.mem_cons.mp member with rfl | member
    · exact Nat.le_trans (extendRight s x) reached
    · exact later.bound x (by simp [member])

theorem extendAll (s : Span) (offers : List Location) :
    (offers.foldl extend s).start = s.start ∧ s.Furthest offers (offers.foldl extend s).stop := by
  induction offers generalizing s with
  | nil =>
    refine ⟨rfl, by simp, fun x member => ?_⟩
    cases List.mem_singleton.mp member
    exact Nat.le_refl _
  | cons first rest ih =>
    obtain ⟨start, furthest⟩ := ih (s.extend first)
    exact ⟨start.trans (extendStart s first), furthestCons furthest⟩

end Span

namespace Attribute

def ending (a : Attribute) : Location :=
  match a.valueSpan.stop with
  | .valid offset => .valid offset
  | .invalid => a.nameStop

theorem stopEnding : stop = ending := by
  funext a
  unfold stop ending
  cases a.valueSpan.stop <;> rfl

end Attribute

inductive Call where
  | step (step : Comment.Step)
  | paragraph (p : Paragraph Comment)

def Kind.takesContent : Kind → Bool
  | .blockCommand | .paramCommand | .tparamCommand | .verbatimBlock => true
  | _ => false

namespace Call

def listed? (k : Kind) : Call → Option (List Location)
  | .step (.setArgs args) => if k.takesContent then some (args.map (·.span.stop)) else none
  | .step (.setAttributes attributes) =>
    if k = .startTag then some (attributes.map Attribute.ending) else none
  | _ => none

def offer (k : Kind) : Call → Location
  | .step (.setArgs args) =>
    if k.takesContent then (args.map (·.span.stop)).getLastD .invalid else .invalid
  | .step (.setAttributes attributes) =>
    if k = .startTag then (attributes.map Attribute.ending).getLastD .invalid else .invalid
  | .step (.setLines lines) =>
    if k = .verbatimBlock then (lines.map (·.header.span.stop)).getLastD .invalid else .invalid
  | .step (.setGreater loc) => if k = .startTag then loc else .invalid
  | .paragraph p => if k.takesContent then p.header.span.stop else .invalid
  | _ => .invalid

end Call

namespace Comment

def listed : Comment → List Location
  | .inlineCommand node => node.args.map (·.span.stop)
  | .startTag node => node.attributes.map Attribute.ending
  | .command _ base => base.args.map (·.span.stop)
  | _ => []

def after (m : Mode) (t : CommandTable) (c : Comment) : Call → Comment
  | .step step => (c.step m t (.step step)).2
  | .paragraph p => (c.attach (.paragraph p)).2

structure Moves (call : Call) (c d : Comment) : Prop where
  content : d.contentKind = c.contentKind
  location : d.location = c.location
  span : d.span = c.span.extend (call.offer c.contentKind)
  listed : d.listed = (call.listed? c.contentKind).getD c.listed

structure Stays (c d : Comment) : Prop where
  content : d.contentKind = c.contentKind
  location : d.location = c.location
  span : d.span = c.span
  listed : d.listed = c.listed

theorem staysSame (c : Comment) : Stays c c := ⟨rfl, rfl, rfl, rfl⟩

theorem staysMoves {call : Call} {c d : Comment} (stays : Stays c d)
    (silent : call.offer c.contentKind = .invalid) (unset : call.listed? c.contentKind = none) :
    Moves call c d where
  content := stays.content
  location := stays.location
  span := by rw [silent, Span.extendInvalid, stays.span]
  listed := by rw [unset, stays.listed]; rfl

theorem extendMoves {call : Call} {c d : Comment} (content : d.contentKind = c.contentKind)
    (header : d.header = c.header.extend (call.offer c.contentKind))
    (listed : d.listed = (call.listed? c.contentKind).getD c.listed) : Moves call c d where
  content := content
  location := by rw [location, header]; rfl
  span := by rw [span, header]; rfl
  listed := listed

theorem lastStop {α : Type} (f : α → Location) (xs : List α) :
    (xs.map f).getLastD .invalid = (xs.getLast?.map f).getD .invalid := by
  rw [List.getLastD_eq_getLast?, List.getLast?_map]

theorem argsHeader {α : Type} (base : BlockCommand α) (args : List Argument) :
    (base.setArgs args).header =
      base.header.extend ((args.map (·.span.stop)).getLastD .invalid) := by
  unfold BlockCommand.setArgs
  rw [lastStop]
  cases args.getLast? <;> rfl

theorem argsMove (c : Comment) (args : List Argument) :
    Moves (.step (.setArgs args)) c (c.changed (c.modifyBase? (·.setArgs args))).2 := by
  cases c with
  | command form base =>
    have header := argsHeader base args
    cases form with
    | verbatimLine => exact staysMoves (staysSame _) rfl rfl
    | _ => exact extendMoves rfl header rfl
  | _ => exact staysMoves (staysSame _) rfl rfl

theorem paragraphMove (c : Comment) (p : Paragraph Comment) :
    Moves (.paragraph p) c (c.attach (.paragraph p)).2 := by
  cases c with
  | command form base =>
    cases form with
    | verbatimLine => exact staysMoves (staysSame _) rfl rfl
    | _ => exact extendMoves rfl rfl rfl
  | _ => exact staysMoves (staysSame _) rfl rfl

theorem linesMove (c : Comment) (lines : List VerbatimBlockLine) :
    Moves (.step (.setLines lines)) c (c.changed (c.setLines? lines)).2 := by
  cases c with
  | command form base =>
    cases form with
    | verbatimBlock closeName closeLoc old =>
      have header : ((command (.verbatimBlock closeName closeLoc old) base).changed
          (setLines? lines (command (.verbatimBlock closeName closeLoc old) base))).2.header =
            base.header.extend ((lines.map (·.header.span.stop)).getLastD .invalid) := by
        simp only [changed, setLines?]
        rw [lastStop]
        cases lines.getLast? <;> rfl
      exact extendMoves rfl header rfl
    | _ => exact staysMoves (staysSame _) rfl rfl
  | _ => exact staysMoves (staysSame _) rfl rfl

theorem attributesMove (tag : StartTag) (attributes : List Attribute) :
    Moves (.step (.setAttributes attributes)) (.startTag tag)
      (.startTag (tag.setAttributes attributes)) := by
  have header : (tag.setAttributes attributes).header =
      tag.header.extend ((attributes.map Attribute.ending).getLastD .invalid) := by
    unfold StartTag.setAttributes
    rw [← Attribute.stopEnding, lastStop]
    cases attributes.getLast? <;> rfl
  exact extendMoves rfl header rfl

theorem newlineStays (c : Comment) : Stays c (c.changed c.addTrailingNewline?).2 := by
  cases c <;> exact ⟨rfl, rfl, rfl, rfl⟩

theorem closeStays (c : Comment) (name : String) (loc : Location) :
    Stays c (c.changed (c.setClose? name loc)).2 := by
  cases c with
  | command form base => cases form <;> exact ⟨rfl, rfl, rfl, rfl⟩
  | _ => exact staysSame _

theorem readBlankPlace {p q : Paragraph Comment} {blank}
    (h : p.readBlank = .ok (blank, q)) :
    q.header.span = p.header.span ∧ q.header.location = p.header.location := by
  obtain ⟨_, _, same⟩ := bindOk.mp h
  cases same
  exact ⟨rfl, rfl⟩

theorem blankStays {c next answer} (h : c.performBlank = .ok (answer, next)) : Stays c next := by
  cases c with
  | text n =>
    obtain ⟨_, read, same⟩ := bindOk.mp h
    obtain ⟨_, _, made⟩ := bindOk.mp read
    cases made
    cases same
    exact ⟨rfl, rfl, rfl, rfl⟩
  | paragraph p =>
    obtain ⟨_, read, same⟩ := bindOk.mp h
    obtain ⟨span, location⟩ := readBlankPlace read
    cases same
    exact ⟨rfl, location, span, rfl⟩
  | _ => cases h; exact staysSame _

theorem nonBlankStays {c next answer} (h : c.performNonBlank = .ok (answer, next)) :
    Stays c next := by
  cases c with
  | command form base =>
    obtain ⟨h', args, _ | p⟩ := base
    · cases h
      exact staysSame _
    · obtain ⟨_, read, same⟩ := bindOk.mp h
      obtain ⟨_, _, made⟩ := bindOk.mp read
      cases made
      cases same
      exact ⟨rfl, rfl, rfl, rfl⟩
  | _ => cases h; exact staysSame _

theorem settleStays {c d : Comment} (h : c.settle = .ok d) : Stays c d := by
  rcases c with _ | _ | _ | _ | ⟨h', content⟩ | ⟨form, h', args, _ | ⟨ph, content⟩⟩ | _
  all_goals simp only [settle] at h
  · cases h; exact staysSame _
  · cases h; exact staysSame _
  · cases h; exact staysSame _
  · cases h; exact staysSame _
  · obtain ⟨_, _, h⟩ := bindOk.mp h
    obtain ⟨_, read, same⟩ := bindOk.mp h
    obtain ⟨span, location⟩ := readBlankPlace read
    cases same
    exact ⟨rfl, location, span, rfl⟩
  · cases h; exact staysSame _
  · split at h
    · obtain ⟨_, _, h⟩ := bindOk.mp h
      obtain ⟨_, _, same⟩ := bindOk.mp h
      cases same
      exact ⟨rfl, rfl, rfl, rfl⟩
    · cases h; exact staysSame _
  · cases h; exact staysSame _

theorem answerStays {α : Type} {c next answer} {x : Run α} {f : α → Answer}
    (h : (do return (f (← x), c)) = (.ok (answer, next) : Run (Answer × Comment))) :
    Stays c next := by
  rw [answerKeeps h]
  exact staysSame c

theorem paramStays {step form base answer next}
    (h : performParam step form base = .ok (answer, next)) : Stays (.command form base) next := by
  unfold performParam at h
  split at h
  · cases h
    exact ⟨rfl, rfl, rfl, rfl⟩
  · obtain ⟨form, made, same⟩ := bindOk.mp h
    cases same
    cases Form.withIndexOk made
    exact ⟨rfl, rfl, rfl, rfl⟩
  · exact answerStays h
  · exact answerStays h
  · exact answerStays h
  · obtain ⟨form, made, same⟩ := bindOk.mp h
    cases same
    cases Form.withPositionOk made
    exact ⟨rfl, rfl, rfl, rfl⟩
  · exact answerStays h
  · exact answerStays h
  · obtain ⟨_, _, found⟩ := bindOk.mp h
    exact answerStays found
  · cases h
    exact staysSame _

theorem tagMoves {step tag answer next} (h : performTag step tag = .ok (answer, next)) :
    Moves (.step step) (.startTag tag) next := by
  cases step with
  | setAttributes attributes => cases h; exact attributesMove tag attributes
  | setGreater loc => cases h; exact extendMoves rfl rfl rfl
  | setSelfClosing => cases h; exact staysMoves ⟨rfl, rfl, rfl, rfl⟩ rfl rfl
  | tagAttribute index => exact staysMoves (answerStays h) rfl rfl
  | _ => cases h; exact staysMoves (staysSame _) rfl rfl

theorem performMoves {t step c answer next} (h : c.perform t step = .ok (answer, next)) :
    Moves (.step step) c next := by
  have made {result : Answer × Comment} (h : .ok result = (.ok (answer, next) : Run _)) :
      next = result.2 := (congrArg Prod.snd (Except.ok.inj h)).symm
  cases step with
  | look | copy | walk => cases h; exact staysMoves (staysSame c) rfl rfl
  | addNewline => rw [made h]; exact staysMoves (newlineStays c) rfl rfl
  | setArgs args => rw [made h]; exact argsMove c args
  | setLines lines => rw [made h]; exact linesMove c lines
  | setClose name loc => rw [made h]; exact staysMoves (closeStays c name loc) rfl rfl
  | isBlank => exact staysMoves (blankStays h) rfl rfl
  | hasNonBlankParagraph => exact staysMoves (nonBlankStays h) rfl rfl
  | paramNames => exact staysMoves (answerStays h) rfl rfl
  | outline | json =>
    obtain ⟨_, _, h⟩ := bindOk.mp h
    obtain ⟨_, settled, same⟩ := bindOk.mp h
    cases same
    exact staysMoves (settleStays settled) rfl rfl
  | arg index =>
    refine staysMoves ?_ rfl rfl
    simp only [perform, performArg] at h
    split at h
    · exact answerStays h
    · cases h; exact staysSame c
  | line index =>
    refine staysMoves ?_ rfl rfl
    simp only [perform, performLine] at h
    split at h
    · exact answerStays h
    · cases h; exact staysSame c
  | _ =>
    cases c with
    | command form base =>
      exact staysMoves (paramStays h) (by cases form <;> rfl) (by cases form <;> rfl)
    | startTag tag => exact tagMoves h
    | _ => cases h; exact staysMoves (staysSame _) rfl rfl

theorem faultSilent {t step} {c : Comment} {fault} (h : c.perform t step = .error fault) (k : Kind) :
    (Call.step step).offer k = .invalid ∧ (Call.step step).listed? k = none := by
  cases step with
  | setArgs args => nomatch h
  | setLines lines => nomatch h
  | setAttributes attributes =>
    cases c with
    | command form base => cases form <;> nomatch h
    | _ => nomatch h
  | setGreater loc =>
    cases c with
    | command form base => cases form <;> nomatch h
    | _ => nomatch h
  | _ => exact ⟨rfl, rfl⟩

theorem afterMoves (m : Mode) (t : CommandTable) (c : Comment) (call : Call) :
    Moves call c (c.after m t call) := by
  cases call with
  | paragraph p => exact paragraphMove c p
  | step step =>
    simp only [after, Comment.step, Action.act]
    cases performed : c.perform t step with
    | ok result => exact performMoves performed
    | error fault =>
      obtain ⟨silent, unset⟩ := faultSilent performed c.contentKind
      exact staysMoves (staysSame c) silent unset

def afterAll (m : Mode) (t : CommandTable) (c : Comment) (calls : List Call) : Comment :=
  calls.foldl (after m t) c

theorem afterAllMoves (m : Mode) (t : CommandTable) (calls : List Call) (c : Comment) :
    (c.afterAll m t calls).contentKind = c.contentKind ∧
      (c.afterAll m t calls).location = c.location ∧
      (c.afterAll m t calls).span = (calls.map (Call.offer c.contentKind)).foldl Span.extend c.span := by
  induction calls generalizing c with
  | nil => exact ⟨rfl, rfl, rfl⟩
  | cons call rest ih =>
    have first := afterMoves m t c call
    obtain ⟨content, location, span⟩ := ih (c.after m t call)
    refine ⟨content.trans first.content, location.trans first.location, ?_⟩
    rw [List.map_cons, List.foldl_cons, ← first.span, ← first.content]
    exact span

inductive Opened : Comment → Span → Prop where
  | block (start stop : Location) (id : UInt16) : Opened (.block start stop id) ⟨start, stop⟩
  | param (start stop : Location) (id : UInt16) : Opened (.param start stop id) ⟨start, stop⟩
  | tparam (start stop : Location) (id : UInt16) : Opened (.tparam start stop id) ⟨start, stop⟩
  | verbatimBlock (start stop : Location) (id : UInt16) :
      Opened (.verbatimBlock start stop id) ⟨start, stop⟩
  | startTag (start : Location) (name : String) :
      Opened (.startTag (.make start name)) ⟨start, start.pastText 1 name⟩

theorem openedPlace {c : Comment} {s : Span} (opened : Opened c s) :
    c.span = s ∧ c.location = s.start.shift 1 ∧ c.listed = [] := by
  cases opened <;> exact ⟨rfl, rfl, rfl⟩

theorem spanGrows (m : Mode) (t : CommandTable) :
    (∀ c s, Opened c s → c.span = s ∧ c.location = s.start.shift 1) ∧
    ∀ (c : Comment) (calls : List Call),
      (c.afterAll m t calls).span.start = c.span.start ∧
      (c.afterAll m t calls).location = c.location ∧
      c.span.Furthest (calls.map (Call.offer c.contentKind)) (c.afterAll m t calls).span.stop ∧
      (∀ others, calls.Perm others → (c.afterAll m t others).span = (c.afterAll m t calls).span) ∧
      ∀ later, (c.afterAll m t calls).span.stop ≤ (c.afterAll m t (calls ++ later)).span.stop ∧
        ((c.afterAll m t calls).span.stop.isValid = true →
          (c.afterAll m t (calls ++ later)).span.stop.isValid = true) := by
  refine ⟨fun c s opened => ⟨(openedPlace opened).1, (openedPlace opened).2.1⟩, fun c calls => ?_⟩
  have reach (c : Comment) (calls : List Call) :
      (c.afterAll m t calls).span.start = c.span.start ∧
        c.span.Furthest (calls.map (Call.offer c.contentKind))
          (c.afterAll m t calls).span.stop := by
    rw [(afterAllMoves m t calls c).2.2]
    exact Span.extendAll _ _
  obtain ⟨start, furthest⟩ := reach c calls
  refine ⟨start, (afterAllMoves m t calls c).2.1, furthest, fun others reordered => ?_,
    fun later => ?_⟩
  · -- Both histories offer the same ends, and the furthest of them is one.
    obtain ⟨otherStart, other⟩ := reach c others
    have same (x : Location) := (reordered.map (Call.offer c.contentKind)).mem_iff (a := x)
    have stop := Span.furthestUnique same furthest other
    exact Span.eqOf (otherStart.trans start.symm) stop.symm
  · have whole : c.afterAll m t (calls ++ later) = (c.afterAll m t calls).afterAll m t later :=
      List.foldl_append
    rw [whole]
    have forward := (reach (c.afterAll m t calls) later).2.bound _ (List.mem_cons_self ..)
    exact ⟨forward, Location.validForward forward⟩

def Reached (c : Comment) : Prop :=
  ∀ last, c.listed.getLast? = some last → last.isValid = true →
    c.span.stop.isValid = true ∧ last ≤ c.span.stop

theorem reachedLast {c : Comment} :
    Reached c ↔ ∀ last, c.listed.getLast? = some last → last ≤ c.span.stop := by
  constructor
  · intro reached last held
    cases last with
    | invalid => exact Nat.zero_le _
    | valid offset => exact (reached _ held rfl).2
  · intro forward last held valid
    exact ⟨Location.validForward (forward last held) valid, forward last held⟩

theorem listedOffer {call : Call} {k : Kind} {stops : List Location}
    (listed : call.listed? k = some stops) : call.offer k = stops.getLastD .invalid := by
  unfold Call.listed? at listed
  unfold Call.offer
  split at listed <;> simp_all

theorem reachedAfter (m : Mode) (t : CommandTable) {c : Comment} (reached : Reached c)
    (call : Call) : Reached (c.after m t call) := by
  rw [reachedLast] at reached ⊢
  have moves := afterMoves m t c call
  intro last held
  rw [moves.listed] at held
  rw [moves.span]
  cases listed : call.listed? c.contentKind with
  | none =>
    rw [listed] at held
    exact Nat.le_trans (reached last held) (Span.extendLeft _ _)
  | some stops =>
    rw [listed] at held
    have offered : call.offer c.contentKind = last := by
      rw [listedOffer listed, List.getLastD_eq_getLast?, show stops.getLast? = some last from held]
      rfl
    rw [offered]
    exact Span.extendRight _ _

theorem reachedAfterAll (m : Mode) (t : CommandTable) (calls : List Call) {c : Comment}
    (reached : Reached c) : Reached (c.afterAll m t calls) := by
  induction calls generalizing c with
  | nil => exact reached
  | cons call rest ih => exact ih (reachedAfter m t reached call)

theorem inlineStays (m : Mode) (t : CommandTable) (calls : List Call) {c : Comment}
    (inline : c.contentKind = .inlineCommand) : Stays c (c.afterAll m t calls) := by
  induction calls generalizing c with
  | nil => exact staysSame c
  | cons call rest ih =>
    have moves := afterMoves m t c call
    have silent : call.offer .inlineCommand = .invalid ∧ call.listed? .inlineCommand = none := by
      unfold Call.offer Call.listed?
      cases call with
      | paragraph p => exact ⟨rfl, rfl⟩
      | step step => cases step <;> exact ⟨rfl, rfl⟩
    have later := ih (moves.content.trans inline)
    refine ⟨later.content.trans moves.content, later.location.trans moves.location, ?_, ?_⟩
    · refine later.span.trans ?_
      rw [moves.span, inline, silent.1, Span.extendInvalid]
    · refine later.listed.trans ?_
      rw [moves.listed, inline, silent.2]
      rfl

theorem listsReached (m : Mode) (t : CommandTable) :
    (∀ c s, Opened c s → ∀ calls, Reached (c.afterAll m t calls)) ∧
    ∀ start stop id style args calls,
      let d := (inlineCommand (.make start stop id style args)).afterAll m t calls
      d.listed = args.map (·.span.stop) ∧ d.span = ⟨start, stop⟩ ∧
        (Reached d ↔ ∀ last, args.getLast? = some last → last.span.stop ≤ stop) := by
  refine ⟨fun c s opened calls => ?_, fun start stop id style args calls => ?_⟩
  · refine reachedAfterAll m t calls fun last held => ?_
    rw [(openedPlace opened).2.2] at held
    nomatch held
  · have stays := inlineStays m t calls
      (rfl : (inlineCommand (.make start stop id style args)).contentKind = .inlineCommand)
    refine ⟨stays.listed, stays.span, ?_⟩
    rw [reachedLast, stays.listed, stays.span]
    simp [listed, InlineCommand.make, span, header, Header.set, Header.ofSpan]

theorem argsBeyond :
    ¬ Reached (inlineCommand (.make (.valid 0) (.valid 2) 0 .normal
      [⟨⟨.valid 3, .valid 8⟩, "nullptr"⟩])) := by
  intro reached
  exact absurd (reached (.valid 8) rfl rfl).2 (by decide)

end Comment
end DocTree
