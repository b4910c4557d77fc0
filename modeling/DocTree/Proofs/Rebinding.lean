import DocTree.Proofs.Building
import DocTree.Proofs.Resolution
import DocTree.Proofs.SourceOrder

/-! One pass over blocks that may be bound already. A pass looks at the arguments, the spans
and the first summary, and writes bindings alone: whatever the blocks were bound to before,
the reports are the same and so is every block that the pass binds. A block that fails to
bind keeps its old binding. A second pass finds everything as it leaves it. -/
namespace DocTree

namespace Comment

inductive Twin : Comment → Comment → Prop where
  | param {old new base} : Twin (.command (.param old) base) (.command (.param new) base)
  | tparam {old new base} : Twin (.command (.tparam old) base) (.command (.tparam new) base)
  | same (c) : Twin c c

def bound? : Comment → Option Binding
  | .command (.param (some i)) _ => some (.index i)
  | .command (.tparam (i :: path)) _ => some (.position (i :: path))
  | _ => none

def asks : Comment → Bool
  | .command (.param _) base | .command (.tparam _) base => base.hasName
  | _ => false

variable {c d e : Comment}

theorem twinHeader (h : Twin c d) : d.header = c.header := by
  cases h <;> rfl

theorem twinChildren (h : Twin c d) : d.children = c.children := by
  cases h <;> rfl

theorem twinAsks (h : Twin c d) : d.asks = c.asks := by
  cases h <;> rfl

theorem twinsSame (cs : List Comment) : List.Forall₂ Twin cs cs :=
  List.forall₂_same.mpr fun c _ => .same c

theorem twinsAsk {cs ds : List Comment} (h : List.Forall₂ Twin cs ds) :
    ds.map asks = cs.map asks := by
  induction h with
  | nil => rfl
  | cons head tail ih => rw [List.map_cons, List.map_cons, twinAsks head, ih]

end Comment

namespace DeclInfo

def askedBy (asked : Bool) (i : DeclInfo) : DeclInfo := if asked then i.fill.2 else i

theorem askedFill (asked : Bool) (i : DeclInfo) : (i.askedBy asked).fill = i.fill := by
  cases asked
  · rfl
  · exact i.fill_fill

theorem askedTwice (first second : Bool) (i : DeclInfo) :
    (i.askedBy first).askedBy second = i.askedBy (first || second) := by
  cases first <;> cases second <;> simp [askedBy, fill_fill]

theorem askedDecl (asked : Bool) (i : DeclInfo) : (i.askedBy asked).decl = i.decl := by
  cases asked
  · rfl
  · unfold askedBy fill
    cases i.filled <;> rfl

end DeclInfo

namespace BlockCommand

variable {i j : DeclInfo}

theorem findParamSame (b : BlockCommand Comment) (summary : j.fill.1 = i.fill.1) :
    b.findParam j = ((b.findParam i).1, j.askedBy b.hasName) := by
  unfold findParam hasName
  cases b.args with
  | nil => rfl
  | cons arg rest =>
    simp only [summary]
    split <;> try split
    all_goals rfl

theorem findTParamSame (b : BlockCommand Comment) (summary : j.fill.1 = i.fill.1) :
    b.findTParam j = ((b.findTParam i).1, j.askedBy b.hasName) := by
  unfold findTParam hasName
  cases b.args with
  | nil => rfl
  | cons arg rest =>
    simp only [summary]
    split <;> try split
    all_goals rfl

end BlockCommand

namespace Comment
open Resolution

variable {c d : Comment}

def fails : Option Binding → Bool
  | some (.failed _) => true
  | _ => false

theorem bindParam (i : DeclInfo) (old : Option Nat) (base : BlockCommand Comment) :
    bind i (.command (.param old) base) = (match (base.findParam i).1 with
      | .ok index => do
        return (some (.index index), .command (← Form.withIndex index) base,
          i.askedBy base.hasName)
      | .error problem =>
        .ok (some (.failed problem), .command (.param old) base, i.askedBy base.hasName)) := by
  have same := base.findParamSame (j := i) rfl
  cases result : base.findParam i with
  | mk found next =>
    rw [result] at same
    cases congrArg Prod.snd same
    simp only [bind, result]
    cases found <;> rfl

theorem bindTParam (i : DeclInfo) (old : List Nat) (base : BlockCommand Comment) :
    bind i (.command (.tparam old) base) = (match (base.findTParam i).1 with
      | .ok path => do
        return (some (.position path), .command (← Form.withPosition path) base,
          i.askedBy base.hasName)
      | .error problem =>
        .ok (some (.failed problem), .command (.tparam old) base, i.askedBy base.hasName)) := by
  have same := base.findTParamSame (j := i) rfl
  cases result : base.findTParam i with
  | mk found next =>
    rw [result] at same
    cases congrArg Prod.snd same
    simp only [bind, result]
    cases found <;> rfl

theorem twinParam {old base} (h : Twin (.command (.param old) base) d) :
    ∃ new, d = .command (.param new) base := by
  cases h with
  | param => exact ⟨_, rfl⟩
  | same => exact ⟨_, rfl⟩

theorem twinTParam {old base} (h : Twin (.command (.tparam old) base) d) :
    ∃ new, d = .command (.tparam new) base := by
  cases h with
  | tparam => exact ⟨_, rfl⟩
  | same => exact ⟨_, rfl⟩

theorem bindTwin {i j : DeclInfo} {after binding next} (summary : j.fill.1 = i.fill.1)
    (twin : Twin c d) (ok : c.bind i = .ok (binding, after, next)) :
    Twin c after ∧ (fails binding = true → after = c) ∧ next = i.askedBy c.asks ∧
      d.bind j = .ok (binding, if fails binding then d else after, j.askedBy c.asks) := by
  cases c with
  | command form base =>
    cases form with
    | param old =>
      obtain ⟨new, rfl⟩ := twinParam twin
      rw [bindParam] at ok
      rw [bindParam, base.findParamSame summary]
      cases found : (base.findParam i).1 with
      | ok index =>
        rw [found] at ok
        obtain ⟨form, written, last⟩ := bindOk.mp ok
        cases last
        cases Form.withIndexOk written
        exact ⟨.param, nofun, rfl, bindOk.mpr ⟨_, written, rfl⟩⟩
      | error problem =>
        rw [found] at ok
        cases ok
        exact ⟨.same _, fun _ => rfl, rfl, rfl⟩
    | tparam old =>
      obtain ⟨new, rfl⟩ := twinTParam twin
      rw [bindTParam] at ok
      rw [bindTParam, base.findTParamSame summary]
      cases found : (base.findTParam i).1 with
      | ok path =>
        rw [found] at ok
        obtain ⟨form, written, last⟩ := bindOk.mp ok
        cases last
        cases Form.withPositionOk written
        exact ⟨.tparam, nofun, rfl, bindOk.mpr ⟨_, written, rfl⟩⟩
      | error problem =>
        rw [found] at ok
        cases ok
        exact ⟨.same _, fun _ => rfl, rfl, rfl⟩
    | _ =>
      cases twin
      cases ok
      exact ⟨.same _, nofun, rfl, rfl⟩
  | _ =>
    cases twin
    cases ok
    exact ⟨.same _, nofun, rfl, rfl⟩

theorem failedReport {i : DeclInfo} {after problem next}
    (ok : c.bind i = .ok (some (.failed problem), after, next)) : problem.isDuplicate = false := by
  cases c with
  | command form base =>
    cases form with
    | param old =>
      rw [bindParam] at ok
      cases found : (base.findParam i).1 with
      | ok index =>
        rw [found] at ok
        obtain ⟨_, _, last⟩ := bindOk.mp ok
        cases last
      | error other =>
        have target := (findParamTarget base i).1
        rw [found] at ok target
        cases ok
        cases target <;> rfl
    | tparam old =>
      rw [bindTParam] at ok
      cases found : (base.findTParam i).1 with
      | ok path =>
        rw [found] at ok
        obtain ⟨_, _, last⟩ := bindOk.mp ok
        cases last
      | error other =>
        have target := (findTParamTarget base i).1
        rw [found] at ok target
        cases ok
        cases target <;> rfl
    | _ => cases ok
  | _ => cases ok

theorem reportTwin (binding : Option Binding) (documented : List Nat) (c d : Comment) :
    reportOf documented (if fails binding then d else c) binding =
      reportOf documented c binding := by
  cases failed : fails binding with
  | false => rfl
  | true =>
    cases binding with
    | none => cases failed
    | some result => cases result <;> first | rfl | cases failed

theorem boundReports {binding : Option Binding} (bound : fails binding = false)
    (documented : List Nat) (c : Comment) :
    ∀ problem ∈ reportOf documented c binding, problem.isDuplicate = true := by
  cases binding with
  | none => simp [reportOf]
  | some binding =>
    cases binding with
    | failed problem => cases bound
    | position path => simp [reportOf]
    | index i =>
      cases c with
      | command form base =>
        simp only [reportOf]
        split
        · simp [ResolveError.isDuplicate, ResolveError.index?]
        · simp
      | _ => simp [reportOf]

end Comment

namespace Resolution
open Comment

def Failed (report : Option ResolveError) : Prop :=
  ∃ problem, report = some problem ∧ problem.isDuplicate = false

inductive Found (s : Summary) : Comment → Option Binding → Prop where
  | index {old base i} (target : ParamTarget s base (.ok i)) :
      Found s (.command (.param old) base) (some (.index i))
  | position {old base path} (target : TParamTarget s base (.ok path)) :
      Found s (.command (.tparam old) base) (some (.position path))
  | other {c} (notParam : ∀ index base, c ≠ .command (.param index) base)
      (notTParam : ∀ position base, c ≠ .command (.tparam position) base) : Found s c none

theorem boundOther {c : Comment} (notParam : ∀ index base, c ≠ .command (.param index) base)
    (notTParam : ∀ position base, c ≠ .command (.tparam position) base) : c.bound? = none := by
  unfold bound?
  split
  · exact absurd rfl (notParam _ _)
  · exact absurd rfl (notTParam _ _)
  · rfl

theorem outcomeBound {s earlier c report after} (h : Outcome s earlier c report after) :
    (Failed report → after = c) ∧ (¬ Failed report → Found s c after.bound?) := by
  cases h with
  | paramFailed target =>
    refine ⟨fun _ => rfl, fun bound => absurd ⟨_, rfl, ?_⟩ bound⟩
    cases target <;> rfl
  | tparamFailed target =>
    refine ⟨fun _ => rfl, fun bound => absurd ⟨_, rfl, ?_⟩ bound⟩
    cases target <;> rfl
  | paramFirst target first => exact ⟨nofun, fun _ => .index target⟩
  | paramAgain target named again =>
    refine ⟨?_, fun _ => .index target⟩
    rintro ⟨_, ⟨⟩, own⟩
    cases own
  | tparamBound target =>
    refine ⟨nofun, fun _ => ?_⟩
    cases target with
    | bound named kind list found =>
      obtain ⟨i, tail, rfl⟩ := List.exists_cons_of_ne_nil (TemplateParam.searchNonempty found)
      exact .position (.bound named kind list found)
  | other notParam notTParam =>
    rw [boundOther notParam notTParam]
    exact ⟨nofun, fun _ => .other notParam notTParam⟩

inductive Leaves : List (Option ResolveError) → List Comment → List Comment → List Comment →
    Prop where
  | nil : Leaves [] [] [] []
  | failed {report d after reports others afters ends} (failed : Failed report)
      (rest : Leaves reports others afters ends) :
      Leaves (report :: reports) (d :: others) (after :: afters) (d :: ends)
  | bound {report d after reports others afters ends} (bound : ¬ Failed report)
      (rest : Leaves reports others afters ends) :
      Leaves (report :: reports) (d :: others) (after :: afters) (after :: ends)

theorem leavesSame {reports afters ends} (h : Leaves reports afters afters ends) :
    ends = afters := by
  induction afters generalizing reports ends with
  | nil => cases h; rfl
  | cons after afters ih =>
    cases h with
    | failed failed rest => rw [ih rest]
    | bound bound rest => rw [ih rest]

theorem leavesOwn {s earlier blocks reports afters ends}
    (pass : Pass s earlier blocks reports afters) (leaves : Leaves reports blocks afters ends) :
    ends = afters := by
  induction pass generalizing ends with
  | nil =>
    cases leaves
    rfl
  | cons head tail ih =>
    cases leaves with
    | failed failed rest => rw [ih rest, (outcomeBound head).1 failed]
    | bound bound rest => rw [ih rest]

theorem leavesAt {reports others afters ends} (h : Leaves reports others afters ends) {k : Nat}
    {d report after} (position : others[k]? = some d) (here : reports[k]? = some report)
    (there : afters[k]? = some after) :
    ∃ last, ends[k]? = some last ∧ (Failed report → last = d) ∧
      (¬ Failed report → last = after) := by
  induction h generalizing k with
  | nil => simp at position
  | failed failed rest ih =>
    cases k with
    | zero =>
      cases position
      cases here
      exact ⟨_, rfl, fun _ => rfl, fun bound => absurd failed bound⟩
    | succ k => exact ih position here there
  | bound bound rest ih =>
    cases k with
    | zero =>
      cases here
      cases there
      exact ⟨_, rfl, fun failed => absurd failed bound, fun _ => rfl⟩
    | succ k => exact ih position here there

theorem leavesCons {i : DeclInfo} {documented} {c : Comment} {binding after next report reports}
    {others afters ends : List Comment}
    (ok : c.bind i = .ok (binding, after, next))
    (listed : reportOf documented after binding = report.toList) (d : Comment)
    (rest : Leaves reports others afters ends) :
    Leaves (report :: reports) (d :: others) (after :: afters)
      ((if fails binding then d else after) :: ends) := by
  cases failed : fails binding with
  | false =>
    refine .bound ?_ rest
    rintro ⟨problem, rfl, own⟩
    have duplicate := boundReports failed documented after problem (by simp [listed])
    rw [own] at duplicate
    cases duplicate
  | true =>
    cases binding with
    | none => cases failed
    | some result =>
      cases result with
      | failed problem =>
        cases report with
        | none => cases listed
        | some said =>
          cases listed
          exact .failed ⟨problem, rfl, failedReport ok⟩ rest
      | _ => cases failed

theorem resolveFromTwin {documented earlier i j blocks others r}
    (summary : j.fill.1 = i.fill.1) (twins : List.Forall₂ Twin blocks others)
    (noted : Noted i.fill.1 documented earlier)
    (ok : resolveFrom documented i blocks = .ok r) :
    List.Forall₂ Twin blocks r.blocks ∧ r.info = i.askedBy (blocks.any asks) ∧
      ∃ reports ends, Pass i.fill.1 earlier blocks reports r.blocks ∧
        r.problems = reports.filterMap id ∧
        resolveFrom documented j others =
          .ok ⟨ends, r.problems, j.askedBy (blocks.any asks)⟩ ∧
        Leaves reports others r.blocks ends := by
  -- Both passes have noted the same indices, and their declarations have been asked by the same
  -- blocks, so the one state of the pass carries both.
  induction twins generalizing documented earlier i j r with
  | nil =>
    cases ok
    exact ⟨.nil, rfl, [], [], .nil, rfl, rfl, .nil⟩
  | @cons c d blocks others twin twins ih =>
    obtain ⟨⟨binding, block, next⟩, bound, ok⟩ := bindOk.mp ok
    obtain ⟨after, resolved, last⟩ := bindOk.mp ok
    cases last
    obtain ⟨⟨report, listed, head⟩, notedNext, sameNext⟩ := bindOutcome bound noted
    obtain ⟨kept, failed, rfl, other⟩ := bindTwin summary twin bound
    have later : (j.askedBy c.asks).fill.1 = (i.askedBy c.asks).fill.1 := by
      rw [DeclInfo.askedFill, DeclInfo.askedFill, summary]
    rw [← sameNext] at notedNext
    obtain ⟨tail, info, reports, ends, pass, problems, again, leaves⟩ :=
      ih later notedNext resolved
    rw [DeclInfo.askedTwice] at info again
    rw [sameNext] at pass
    refine ⟨.cons kept tail, by simpa using info, report :: reports,
      (if fails binding then d else block) :: ends, .cons head pass, ?_, ?_, ?_⟩
    · simp only [listed, problems]
      cases report <;> simp
    · refine bindOk.mpr ⟨_, other, bindOk.mpr ⟨_, again, ?_⟩⟩
      rw [reportTwin]
      rfl
    · exact leavesCons bound listed d leaves

end Resolution

namespace FullComment
open Comment Resolution

theorem resolveTotal (f : FullComment) (fits : f.info.fill.1.params.length ≤ Form.sentinel) :
    ∃ problems g, f.resolve = .ok (problems, g) := by
  obtain ⟨r, ok⟩ := resolveFromTotal [] f.blocks fits
  exact ⟨_, _, bindOk.mpr ⟨r, ok, rfl⟩⟩

theorem resolveTwin {f h : FullComment} (summary : h.info.fill.1 = f.info.fill.1)
    (twins : List.Forall₂ Twin f.blocks h.blocks) {problems g}
    (ok : f.resolve = .ok (problems, g)) :
    (g.header = f.header ∧ List.Forall₂ Twin f.blocks g.blocks ∧
      g.info = f.info.askedBy (f.blocks.any asks)) ∧
    ∃ reports ends, Pass f.info.fill.1 [] f.blocks reports g.blocks ∧
      problems = reports.filterMap id ∧
      h.resolve = .ok (problems, ⟨h.header, ends, h.info.askedBy (f.blocks.any asks)⟩) ∧
      Leaves reports h.blocks g.blocks ends := by
  obtain ⟨r, resolved, last⟩ := bindOk.mp ok
  cases last
  obtain ⟨kept, info, reports, ends, pass, listed, again, leaves⟩ :=
    resolveFromTwin summary twins (notedNothing _) resolved
  exact ⟨⟨rfl, kept, info⟩, reports, ends, pass, listed, bindOk.mpr ⟨_, again, rfl⟩, leaves⟩

theorem oldBindings (f : FullComment) :
    (f.info.fill.1.params.length ≤ Form.sentinel →
      ∃ problems g, f.resolve = .ok (problems, g)) ∧
    ∀ problems g, f.resolve = .ok (problems, g) →
      ∀ h : FullComment, h.info.fill.1 = f.info.fill.1 → List.Forall₂ Twin f.blocks h.blocks →
        ∃ (reports : List (Option ResolveError)) (e : FullComment),
          problems = reports.filterMap id ∧ h.resolve = .ok (problems, e) ∧
          ∀ (k : Nat) (c d : Comment), f.blocks[k]? = some c → h.blocks[k]? = some d →
            ∃ report after last, reports[k]? = some report ∧ g.blocks[k]? = some after ∧
              e.blocks[k]? = some last ∧ (Failed report → after = c ∧ last = d) ∧
              (¬ Failed report → Found f.info.fill.1 c after.bound? ∧ last = after) := by
  refine ⟨resolveTotal f, fun problems g ok h summary twins => ?_⟩
  obtain ⟨_, reports, ends, pass, listed, again, leaves⟩ := resolveTwin summary twins ok
  refine ⟨reports, _, listed, again, fun k c d position other => ?_⟩
  obtain ⟨report, after, here, there, outcome⟩ := passAt pass position
  obtain ⟨failed, bound⟩ := outcomeBound outcome
  obtain ⟨last, ending, stays, follows⟩ := leavesAt leaves other here there
  exact ⟨report, after, last, here, there, ending, fun own => ⟨failed own, stays own⟩,
    fun own => ⟨bound own, follows own⟩⟩

def staleParam : Draft :=
  .seed (.param (.valid 0) (.valid 6) (.id 11))
    [.step (.setArgs [⟨⟨.valid 7, .valid 10⟩, "zzz"⟩]), .step (.setIndex 5)]

theorem staleIndex : ∃ c f g, staleParam.build .checked .empty = .ok c ∧
    FullComment.build .checked [c] (.ofDecl (.constant "f" (.function ["a"]))) = .ok f ∧
    f.resolve = .ok ([.unknownParameter "zzz" ⟨.valid 0, .valid 10⟩], g) ∧
    g.blocks.map bound? = [some (.index 5)] :=
  ⟨_, _, _, rfl, rfl, rfl, rfl⟩

end FullComment
end DocTree
