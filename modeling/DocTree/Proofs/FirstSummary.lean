import DocTree.Decl.Session
import DocTree.Proofs.ResolveFrame

/-! Runs that read a comment and what it documents. The declaration is asked by the first
request that needs a summary and never again, and every request answers from that first
summary: the run is the one of a declaration that never answers anything else. -/
namespace DocTree

namespace DeclInfo

def pin (s : Summary) (i : DeclInfo) : DeclInfo := { i with decl := .constant i.decl.name s }

theorem pinFill (i : DeclInfo) : (i.pin i.fill.1).fill = (i.fill.1, i.fill.2.pin i.fill.1) := by
  obtain ⟨decl, _ | summary, asked⟩ := i <;> rfl

theorem pinAsked (asked : Bool) (i : DeclInfo) :
    (i.pin i.fill.1).askedBy asked = (i.askedBy asked).pin i.fill.1 := by
  cases asked
  · rfl
  · exact congrArg Prod.snd i.pinFill

theorem pinReply (i : DeclInfo) (q : Question) :
    (i.pin i.fill.1).reply q = ((i.reply q).1, (i.reply q).2.pin i.fill.1) := by
  cases q with
  | summary => simp only [reply, pinFill]
  | _ => rfl

theorem filledReply (i : DeclInfo) (q : Question) : (i.fill.2.reply q).2 = i.fill.2 := by
  cases q with
  | summary => exact congrArg Prod.snd i.fill_fill
  | _ => rfl

theorem askedCount (asked : Bool) (i : DeclInfo) :
    (i.askedBy asked).asked = if asked && !i.isFilled then i.asked + 1 else i.asked := by
  obtain ⟨decl, _ | summary, count⟩ := i <;> cases asked <;> rfl

theorem askedFilled (asked : Bool) (i : DeclInfo) :
    (i.askedBy asked).isFilled = (asked || i.isFilled) := by
  obtain ⟨decl, _ | summary, count⟩ := i <;> cases asked <;> rfl

end DeclInfo

namespace Comment

variable {c d : Comment}

theorem replaceAsks (c : Comment) (i : Nat) (child : Comment) :
    (c.replaceChild i child).asks = c.asks := by
  cases c with
  | command form base => cases form <;> cases child <;> rfl
  | _ => rfl

theorem settleAsks (settled : c.settle = .ok d) : d.asks = c.asks := by
  cases c with
  | paragraph p =>
    obtain ⟨_, _, rest⟩ := bindOk.mp settled
    obtain ⟨_, _, same⟩ := bindOk.mp rest
    cases same
    rfl
  | command form base =>
    obtain ⟨h, args, _ | p⟩ := base
    · cases settled
      rfl
    · unfold settle at settled
      split at settled
      · obtain ⟨_, _, rest⟩ := bindOk.mp settled
        obtain ⟨_, _, same⟩ := bindOk.mp rest
        cases same
        cases form <;> rfl
      · cases settled
        rfl
  | _ =>
    cases settled
    rfl

theorem settleAllAsks {cs ds : List Comment} (settled : settleAll cs = .ok ds) :
    ds.map asks = cs.map asks := by
  induction cs generalizing ds with
  | nil => cases settled; rfl
  | cons c rest ih =>
    obtain ⟨d, first, others⟩ := bindOk.mp settled
    obtain ⟨ds, later, same⟩ := bindOk.mp others
    cases same
    rw [List.map_cons, List.map_cons, settleAsks first, ih later]

end Comment

namespace NodeExpectation
open Comment

variable {place : List Nat} {mismatch : Option NodeMismatch} {c d : Comment}

theorem checkAsks {e : NodeExpectation} (ok : check place e c = .ok (mismatch, d)) :
    d.asks = c.asks := by
  cases e with
  | child index inside =>
    unfold check at ok
    split at ok
    · cases ok
      rfl
    · obtain ⟨⟨_, found⟩, _, same⟩ := bindOk.mp ok
      cases same
      exact replaceAsks c index found
  | paragraph inside =>
    unfold check at ok
    obtain ⟨⟨_, next⟩, checked, same⟩ := bindOk.mp ok
    cases same
    cases c with
    | paragraph p =>
      obtain ⟨_, _, same⟩ := bindOk.mp checked
      cases same
      rfl
    | _ =>
      cases checked
      rfl
  | _ =>
    unfold check at ok
    cases ok
    rfl

theorem checkAllAsks {es : List NodeExpectation} (ok : checkAll place es c = .ok (mismatch, d)) :
    d.asks = c.asks := by
  induction es generalizing c with
  | nil =>
    unfold checkAll at ok
    cases ok
    rfl
  | cons e rest ih =>
    unfold checkAll at ok
    obtain ⟨⟨found, next⟩, checked, ok⟩ := bindOk.mp ok
    cases found with
    | none => exact (ih ok).trans (checkAsks checked)
    | some mismatch =>
      cases ok
      exact checkAsks checked

end NodeExpectation

namespace FullComment
open Comment Resolution

variable {f g : FullComment} {t : CommandTable}

def pin (s : Summary) (f : FullComment) : FullComment := { f with info := f.info.pin s }

structure AsksAlike (f g : FullComment) : Prop where
  info : g.info = f.info
  asks : g.blocks.map asks = f.blocks.map asks

theorem expectationAsks {e : TreeExpectation} {mismatch} (ok : e.check f = .ok (mismatch, g)) :
    AsksAlike f g := by
  cases e with
  | block index inside =>
    unfold TreeExpectation.check at ok
    cases held : f.blocks[index]? with
    | none =>
      simp only [held] at ok
      cases ok
      exact ⟨rfl, rfl⟩
    | some found =>
      simp only [held] at ok
      obtain ⟨⟨_, next⟩, checked, same⟩ := bindOk.mp ok
      cases same
      refine ⟨rfl, ?_⟩
      show (f.blocks.set index next).map Comment.asks = f.blocks.map Comment.asks
      rw [List.map_set, NodeExpectation.checkAllAsks checked]
      obtain ⟨listed, rfl⟩ := List.getElem?_eq_some_iff.mp held
      rw [← List.map_set, List.set_getElem_self]
  | _ =>
    cases ok
    exact ⟨rfl, rfl⟩

theorem checkAsks {es : List TreeExpectation} {mismatch} (ok : f.check es = .ok (mismatch, g)) :
    AsksAlike f g := by
  induction es generalizing f with
  | nil =>
    cases ok
    exact ⟨rfl, rfl⟩
  | cons e rest ih =>
    obtain ⟨⟨found, next⟩, checked, ok⟩ := bindOk.mp ok
    have first := expectationAsks checked
    cases found with
    | some mismatch =>
      cases ok
      exact first
    | none => exact ⟨(ih ok).info.trans first.info, (ih ok).asks.trans first.asks⟩

theorem readStep {step : Step} {answer} (notResolve : step ≠ .resolve)
    (notInfo : step ≠ .declInfo) (ok : f.perform t step = .ok (answer, g)) : AsksAlike f g := by
  cases step with
  | resolve => contradiction
  | declInfo => contradiction
  | outline | json =>
    obtain ⟨_, _, rest⟩ := bindOk.mp ok
    obtain ⟨_, settled, same⟩ := bindOk.mp rest
    cases same
    obtain ⟨_, each, same⟩ := bindOk.mp settled
    cases same
    exact ⟨rfl, settleAllAsks each⟩
  | paramNames =>
    obtain ⟨_, _, same⟩ := bindOk.mp ok
    cases same
    exact ⟨rfl, rfl⟩
  | expect expectations =>
    obtain ⟨⟨_, _⟩, checked, same⟩ := bindOk.mp ok
    cases same
    exact checkAsks checked
  | _ =>
    cases ok
    exact ⟨rfl, rfl⟩

theorem pinExpectation (s : Summary) (f : FullComment) (e : TreeExpectation) :
    e.check (f.pin s) = (e.check f).map fun (mismatch, g) => (mismatch, g.pin s) := by
  cases e with
  | block index inside =>
    cases held : f.blocks[index]? with
    | none =>
      simp only [TreeExpectation.check, pin, held]
      rfl
    | some found =>
      simp only [TreeExpectation.check, pin, held]
      cases NodeExpectation.checkAll [index] inside found <;> rfl
  | _ => rfl

theorem pinCheck (s : Summary) (f : FullComment) (es : List TreeExpectation) :
    (f.pin s).check es = (f.check es).map fun (mismatch, g) => (mismatch, g.pin s) := by
  induction es generalizing f with
  | nil => rfl
  | cons e rest ih =>
    unfold check
    rw [pinExpectation]
    cases e.check f with
    | error fault => rfl
    | ok result =>
      obtain ⟨_ | mismatch, g⟩ := result
      · exact ih g
      · rfl

theorem pinSettle (s : Summary) (f : FullComment) : (f.pin s).settle = f.settle.map (pin s) := by
  simp only [settle, pin]
  cases settleAll f.blocks <;> rfl

theorem pinStep {step : Step} (notResolve : step ≠ .resolve) (notInfo : step ≠ .declInfo)
    (s : Summary) (f : FullComment) :
    (f.pin s).perform t step = (f.perform t step).map fun (answer, g) => (answer, g.pin s) := by
  have same : (f.pin s).snapshot t = f.snapshot t := rfl
  cases step with
  | resolve => contradiction
  | declInfo => contradiction
  | outline | json =>
    simp only [perform, same, pinSettle]
    cases f.snapshot t with
    | error fault => rfl
    | ok _ => cases f.settle <;> rfl
  | paramNames =>
    have names : (f.pin s).paramNames = f.paramNames := rfl
    simp only [perform, names]
    cases f.paramNames <;> rfl
  | expect expectations =>
    simp only [perform, pinCheck]
    cases f.check expectations <;> rfl
  | _ => rfl

theorem pinResolve {problems} (ok : f.resolve = .ok (problems, g)) :
    (f.pin f.info.fill.1).resolve = .ok (problems, g.pin f.info.fill.1) := by
  have summary : (f.info.pin f.info.fill.1).fill.1 = f.info.fill.1 := by rw [DeclInfo.pinFill]
  obtain ⟨⟨header, _, info⟩, reports, ends, pass, _, pinned, leaves⟩ :=
    resolveTwin (h := f.pin f.info.fill.1) summary (twinsSame f.blocks) ok
  rw [pinned, leavesOwn pass leaves]
  show Except.ok (problems, FullComment.mk f.header g.blocks ((f.info.pin _).askedBy _)) = _
  rw [DeclInfo.pinAsked, ← info, ← header]
  rfl

def ask (question : DeclInfo.Question) (f : FullComment) : DeclInfo.Answer × FullComment :=
  let (answer, info) := f.declInfo.2.info.reply question
  (answer, { f with info })

inductive Request where
  | step (step : Step)
  | ask (question : DeclInfo.Question)

inductive Reply where
  | step (answer : Except Fault Answer)
  | info (answer : DeclInfo.Answer)

def serve (t : CommandTable) (f : FullComment) : Request → Reply × FullComment
  | .step s => ((f.step t s).map Reply.step id)
  | .ask question => (f.ask question).map Reply.info id

def serveAll (t : CommandTable) (f : FullComment) : List Request → List Reply × FullComment
  | [] => ([], f)
  | r :: rest =>
    let (reply, next) := f.serve t r
    let (replies, last) := serveAll t next rest
    (reply :: replies, last)

def Request.asks (f : FullComment) : Request → Bool
  | .step .declInfo | .ask _ => true
  | .step .resolve => f.blocks.any Comment.asks
  | .step _ => false

theorem askServe (f : FullComment) (question : DeclInfo.Question) :
    (f.ask question).2 = { f with info := f.info.fill.2 } ∧
      (f.pin f.info.fill.1).ask question =
        ((f.ask question).1, (f.ask question).2.pin f.info.fill.1) := by
  have pinned := f.info.fill.2.pinReply question
  rw [DeclInfo.fill_fill] at pinned
  constructor
  · simp only [ask, declInfo, DeclInfo.filledReply]
  · simp only [ask, declInfo, pin, DeclInfo.pinFill, pinned]

theorem quietStep {s : Step} (notResolve : s ≠ .resolve) (notInfo : s ≠ .declInfo)
    (f : FullComment) : (Request.step s).asks f = false := by
  cases s <;> first | rfl | contradiction

/-- One request asks the declaration if it needs to, leaves alone what later ones depend on,
and is served alike over the pinned declaration. -/
structure Served (t : CommandTable) (f : FullComment) (r : Request) (reply : Reply)
    (g : FullComment) : Prop where
  served : f.serve t r = (reply, g)
  info : g.info = f.info.askedBy (r.asks f)
  asks : g.blocks.map asks = f.blocks.map asks
  pinned : (f.pin f.info.fill.1).serve t r = (reply, g.pin f.info.fill.1)

theorem performServe {s : Step} {answer} (ok : f.perform t s = .ok (answer, g)) :
    f.serve t (.step s) = (.step (.ok answer), g) := by
  simp only [serve, step, ok, Prod.map, id]

theorem resolveServed (fits : f.info.fill.1.params.length ≤ Form.sentinel) :
    ∃ reply g, Served t f (.step .resolve) reply g := by
  obtain ⟨problems, g, ok⟩ := resolveTotal f fits
  obtain ⟨⟨_, twins, info⟩, _⟩ := resolveTwin rfl (twinsSame f.blocks) ok
  exact ⟨_, g, performServe (bindOk.mpr ⟨_, ok, rfl⟩), info, twinsAsk twins,
    performServe (bindOk.mpr ⟨_, pinResolve ok, rfl⟩)⟩

theorem quietServed {s : Step} (notResolve : s ≠ .resolve) (notInfo : s ≠ .declInfo) :
    ∃ reply g, Served t f (.step s) reply g := by
  have pinned := pinStep (t := t) notResolve notInfo f.info.fill.1 f
  cases performed : f.perform t s with
  | error fault =>
    rw [performed] at pinned
    have faulty {h : FullComment} (failed : h.perform t s = .error fault) :
        h.serve t (.step s) = (.step (.error fault), h) := by
      simp only [serve, step, failed, Prod.map, id]
    refine ⟨_, f, faulty performed, ?_, rfl, faulty pinned⟩
    rw [quietStep notResolve notInfo]
    rfl
  | ok result =>
    obtain ⟨answer, g⟩ := result
    rw [performed] at pinned
    obtain ⟨info, asks⟩ := readStep notResolve notInfo performed
    refine ⟨_, g, performServe performed, ?_, asks, performServe pinned⟩
    rw [quietStep notResolve notInfo]
    exact info

theorem infoServed : ∃ reply g, Served t f (.step .declInfo) reply g := by
  refine ⟨.step (.ok (.summary f.info.fill.1)), { f with info := f.info.fill.2 }, rfl, rfl, rfl, ?_⟩
  refine performServe ?_
  simp only [perform, declInfo, pin, DeclInfo.pinFill]

theorem serves (f : FullComment) (t : CommandTable) (r : Request)
    (fits : f.info.fill.1.params.length ≤ Form.sentinel) :
    ∃ reply g, Served t f r reply g := by
  cases r with
  | step s =>
    by_cases resolves : s = .resolve
    · rw [resolves]
      exact resolveServed fits
    by_cases info : s = .declInfo
    · rw [info]
      exact infoServed
    · exact quietServed resolves info
  | ask question =>
    obtain ⟨next, pinned⟩ := askServe f question
    refine ⟨_, _, rfl, ?_, ?_, ?_⟩
    · exact congrArg FullComment.info next
    · exact congrArg (fun g => g.blocks.map Comment.asks) next
    · exact congrArg (Prod.map Reply.info id) pinned

theorem asksSame (same : g.blocks.map Comment.asks = f.blocks.map Comment.asks) (r : Request) :
    r.asks g = r.asks f := by
  have blocks := congrArg (·.any id) same
  simp only [List.any_map, Function.id_comp] at blocks
  cases r with
  | step s =>
    cases s with
    | resolve => exact blocks
    | _ => rfl
  | ask question => rfl

theorem servesAll (f : FullComment) (t : CommandTable) (requests : List Request)
    (fits : f.info.fill.1.params.length ≤ Form.sentinel) :
    ∃ replies g, f.serveAll t requests = (replies, g) ∧
      g.info = f.info.askedBy (requests.any (·.asks f)) ∧
      (f.pin f.info.fill.1).serveAll t requests = (replies, g.pin f.info.fill.1) := by
  induction requests generalizing f with
  | nil => exact ⟨[], f, rfl, rfl, rfl⟩
  | cons r rest ih =>
    obtain ⟨reply, next, served, info, asks, pinned⟩ := serves f t r fits
    have summary : next.info.fill.1 = f.info.fill.1 := by rw [info, DeclInfo.askedFill]
    rw [← summary] at fits pinned ⊢
    obtain ⟨replies, g, servedAll, infoAll, pinnedAll⟩ := ih next fits
    refine ⟨reply :: replies, g, ?_, ?_, ?_⟩
    · simp only [serveAll, served, servedAll]
    · simp only [asksSame asks] at infoAll
      rw [infoAll, info, DeclInfo.askedTwice, List.any_cons]
    · simp only [serveAll, pinned, pinnedAll]

theorem askedOnce {f : FullComment} (fits : f.info.fill.1.params.length ≤ Form.sentinel)
    (t : CommandTable) (requests : List Request) :
    ∃ replies g, f.serveAll t requests = (replies, g) ∧
      g.info.isFilled = (requests.any (·.asks f) || f.info.isFilled) ∧
      g.info.asked =
        (if requests.any (·.asks f) && !f.info.isFilled then f.info.asked + 1
          else f.info.asked) ∧
      (f.pin f.info.fill.1).serveAll t requests = (replies, g.pin f.info.fill.1) ∧
      g.declInfo.1 = f.info.fill.1 ∧ (g.ask .summary).1 = .summary f.info.fill.1 ∧
      ∃ problems e reports, g.resolve = .ok (problems, e) ∧
        Pass f.info.fill.1 [] g.blocks reports e.blocks ∧ problems = reports.filterMap id := by
  obtain ⟨replies, g, served, info, pinned⟩ := servesAll f t requests fits
  have summary : g.info.fill.1 = f.info.fill.1 := by rw [info, DeclInfo.askedFill]
  obtain ⟨problems, e, ok⟩ := resolveTotal g (summary ▸ fits)
  obtain ⟨_, reports, _, pass, listed, _⟩ := resolveTwin rfl (twinsSame g.blocks) ok
  refine ⟨replies, g, served, ?_, ?_, pinned, summary, ?_, problems, e, reports, ok,
    summary ▸ pass, listed⟩
  · rw [info, DeclInfo.askedFilled]
  · rw [info, DeclInfo.askedCount]
  · simp only [ask, declInfo, DeclInfo.reply, DeclInfo.fill_fill, summary]

def fickleDrafts : List Draft :=
  [.paragraph [] [],
    .seed (.param (.valid 0) (.valid 6) (.id 11))
      [.step (.setArgs [⟨⟨.valid 7, .valid 8⟩, "b"⟩])]]

def fickleInfo : DeclInfo :=
  .ofDecl (.ofAnswers "f" [.function ["a", "b"], .plain, .function ["b"]])

theorem fickleAsked : ∃ blocks f, Draft.buildAll .checked .empty fickleDrafts = .ok blocks ∧
    FullComment.build .checked blocks fickleInfo = .ok f ∧
    f.info.fill.1.params.length ≤ Form.sentinel ∧
    ∃ replies g, f.serveAll .empty
        [.step .outline, .step .resolve, .ask .summary, .step .declInfo, .step .resolve] =
      (replies, g) ∧ g.info.asked = 1 := by
  have fits : fickleInfo.fill.1.params.length ≤ Form.sentinel := by decide
  refine ⟨_, _, rfl, rfl, fits, ?_⟩
  obtain ⟨replies, g, served, _, asked, _⟩ := askedOnce (f := ofBlocks _ fickleInfo) fits .empty
    [.step .outline, .step .resolve, .ask .summary, .step .declInfo, .step .resolve]
  exact ⟨replies, g, served, asked.trans rfl⟩

end FullComment
end DocTree
