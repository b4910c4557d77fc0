import DocTree.Node.Session
import DocTree.Proofs.TemplatePath

/-! One pass over the blocks of a full comment. What a command is bound to depends on its
own arguments and on the summary alone; only the report of a duplicate looks at the blocks
before it. The rules are relations here, and a pass is shown to follow them block by
block, in order and with at most one report each. -/
namespace DocTree.Resolution

inductive ParamTarget (s : Summary) (b : BlockCommand Comment) :
    Except ResolveError Nat → Prop where
  | missing (bare : b.args = []) : ParamTarget s b (.error (.missingParamName b.header.span))
  | notFunction {arg rest} (named : b.args = arg :: rest) (kind : s.kind ≠ .function) :
      ParamTarget s b (.error (.notAFunction arg.text b.header.span))
  | unknown {arg rest} (named : b.args = arg :: rest) (kind : s.kind = .function)
      (absent : some arg.text ∉ s.params) :
      ParamTarget s b (.error (.unknownParameter arg.text b.header.span))
  | bound {arg rest i} (named : b.args = arg :: rest) (kind : s.kind = .function)
      (entry : s.params[i]? = some (some arg.text))
      (least : ∀ j < i, s.params[j]? ≠ some (some arg.text)) : ParamTarget s b (.ok i)

inductive TParamTarget (s : Summary) (b : BlockCommand Comment) :
    Except ResolveError (List Nat) → Prop where
  | missing (bare : b.args = []) : TParamTarget s b (.error (.missingTParamName b.header.span))
  | notTemplate {arg rest} (named : b.args = arg :: rest)
      (kind : s.templateKind = .notTemplate ∨ s.templateParams = none) :
      TParamTarget s b (.error (.notATemplate arg.text b.header.span))
  | unknown {arg rest params} (named : b.args = arg :: rest) (kind : s.templateKind ≠ .notTemplate)
      (list : s.templateParams = some params) (absent : templatePath? arg.text params = none) :
      TParamTarget s b (.error (.unknownTemplateParameter arg.text b.header.span))
  | bound {arg rest params path} (named : b.args = arg :: rest)
      (kind : s.templateKind ≠ .notTemplate) (list : s.templateParams = some params)
      (found : templatePath? arg.text params = some path) : TParamTarget s b (.ok path)

def BindsIndex (s : Summary) (i : Nat) : Comment → Prop
  | .command (.param _) base => ParamTarget s base (.ok i)
  | _ => False

def BindsPosition (s : Summary) (path : List Nat) : Comment → Prop
  | .command (.tparam _) base => TParamTarget s base (.ok path)
  | _ => False

inductive Outcome (s : Summary) (earlier : List Comment) :
    Comment → Option ResolveError → Comment → Prop where
  | paramFailed {old base problem} (target : ParamTarget s base (.error problem)) :
      Outcome s earlier (.command (.param old) base) (some problem) (.command (.param old) base)
  | paramFirst {old base i} (target : ParamTarget s base (.ok i))
      (first : ∀ d ∈ earlier, ¬ BindsIndex s i d) :
      Outcome s earlier (.command (.param old) base) none (.command (.param (some i)) base)
  | paramAgain {old base i arg rest} (target : ParamTarget s base (.ok i))
      (named : base.args = arg :: rest) (again : ∃ d ∈ earlier, BindsIndex s i d) :
      Outcome s earlier (.command (.param old) base)
        (some (.duplicateParameter arg.text base.header.span i)) (.command (.param (some i)) base)
  | tparamFailed {old base problem} (target : TParamTarget s base (.error problem)) :
      Outcome s earlier (.command (.tparam old) base) (some problem) (.command (.tparam old) base)
  | tparamBound {old base path} (target : TParamTarget s base (.ok path)) :
      Outcome s earlier (.command (.tparam old) base) none (.command (.tparam path) base)
  | other {c} (notParam : ∀ index base, c ≠ .command (.param index) base)
      (notTParam : ∀ position base, c ≠ .command (.tparam position) base) :
      Outcome s earlier c none c

inductive Pass (s : Summary) :
    List Comment → List Comment → List (Option ResolveError) → List Comment → Prop where
  | nil {earlier} : Pass s earlier [] [] []
  | cons {earlier c rest report reports after afters} (head : Outcome s earlier c report after)
      (tail : Pass s (earlier ++ [c]) rest reports afters) :
      Pass s earlier (c :: rest) (report :: reports) (after :: afters)

theorem fillAgain (i : DeclInfo) : i.fill.2.fill.1 = i.fill.1 := by
  rw [DeclInfo.fill_fill]

theorem paramTargetUnique {s b x y} (left : ParamTarget s b x) (right : ParamTarget s b y) :
    x = y := by
  cases left with
  | missing bare => cases right <;> simp_all
  | notFunction named kind => cases right <;> simp_all
  | unknown named kind absent =>
    cases right with
    | bound other _ entry _ =>
      have member := List.mem_of_getElem? entry
      simp_all
    | _ => simp_all
  | @bound arg rest i named kind entry least =>
    cases right with
    | missing bare => simp_all
    | notFunction other no => simp_all
    | unknown other _ absent =>
      have member := List.mem_of_getElem? entry
      simp_all
    | @bound arg' rest' j other _ entry' least' =>
      have same : arg = arg' := by simp_all
      subst same
      have notLess : ¬ i < j := fun less => least' i less entry
      have notMore : ¬ j < i := fun less => least j less entry'
      rw [show i = j by omega]

theorem findParamTarget (b : BlockCommand Comment) (info : DeclInfo) :
    ParamTarget info.fill.1 b (b.findParam info).1 ∧
      (b.findParam info).2.fill.1 = info.fill.1 := by
  unfold BlockCommand.findParam
  cases named : b.args with
  | nil => exact ⟨.missing named, rfl⟩
  | cons arg rest =>
    simp only
    split
    · rename_i function
      have kind : info.fill.1.kind = .function := by simpa [Summary.isFunction] using function
      split
      · rename_i i found
        obtain ⟨inside, here, before⟩ := List.findIdx?_eq_some_iff_getElem.mp found
        have entry : info.fill.1.params[i]? = some (some arg.text) := by
          rw [List.getElem?_eq_getElem inside, eq_of_beq here]
        refine ⟨.bound named kind entry ?_, fillAgain info⟩
        intro j less same
        have other := before j less
        rw [List.getElem?_eq_getElem (by omega)] at same
        simp_all
      · rename_i missing
        refine ⟨.unknown named kind ?_, fillAgain info⟩
        intro member
        simpa using List.findIdx?_eq_none_iff.mp missing _ member
    · rename_i notFunction
      exact ⟨.notFunction named (by simpa [Summary.isFunction] using notFunction), fillAgain info⟩

theorem findTParamTarget (b : BlockCommand Comment) (info : DeclInfo) :
    TParamTarget info.fill.1 b (b.findTParam info).1 ∧
      (b.findTParam info).2.fill.1 = info.fill.1 := by
  unfold BlockCommand.findTParam
  cases named : b.args with
  | nil => exact ⟨.missing named, rfl⟩
  | cons arg rest =>
    simp only
    split
    · rename_i params list template
      have kind : info.fill.1.templateKind ≠ .notTemplate := by
        simpa [Summary.isTemplate] using template
      split
      · exact ⟨.bound named kind list ‹_›, fillAgain info⟩
      · exact ⟨.unknown named kind list ‹_›, fillAgain info⟩
    · rename_i refused
      refine ⟨.notTemplate named ?_, fillAgain info⟩
      cases list : info.fill.1.templateParams with
      | none => exact .inr rfl
      | some params => exact .inl (by simpa [Summary.isTemplate] using refused params list)

theorem bindsIndexUnique {s c i j} (left : BindsIndex s i c) (right : BindsIndex s j c) :
    i = j := by
  unfold BindsIndex at left right
  split at left
  · exact Except.ok.inj (paramTargetUnique left right)
  · contradiction

/-- The invariant of a pass: the indices noted are those that earlier blocks bind. -/
def Noted (s : Summary) (documented : List Nat) (earlier : List Comment) : Prop :=
  ∀ i, i ∈ documented ↔ ∃ d ∈ earlier, BindsIndex s i d

theorem notedSame {s documented earlier c} (noted : Noted s documented earlier)
    (none : ∀ i, ¬ BindsIndex s i c) : Noted s documented (earlier ++ [c]) := by
  intro i
  rw [noted i]
  constructor
  · rintro ⟨d, member, binds⟩
    exact ⟨d, List.mem_append_left _ member, binds⟩
  · rintro ⟨d, member, binds⟩
    rcases List.mem_append.mp member with before | last
    · exact ⟨d, before, binds⟩
    · rw [List.mem_singleton.mp last] at binds
      exact absurd binds (none i)

theorem notedMore {s documented earlier c i} (noted : Noted s documented earlier)
    (binds : BindsIndex s i c) : Noted s (i :: documented) (earlier ++ [c]) := by
  intro j
  rw [List.mem_cons, noted j]
  constructor
  · rintro (rfl | ⟨d, member, other⟩)
    · exact ⟨c, by simp, binds⟩
    · exact ⟨d, List.mem_append_left _ member, other⟩
  · rintro ⟨d, member, other⟩
    rcases List.mem_append.mp member with before | last
    · exact .inr ⟨d, before, other⟩
    · rw [List.mem_singleton.mp last] at other
      exact .inl (bindsIndexUnique other binds)

def noteOf (documented : List Nat) : Option Binding → List Nat
  | some (.index index) => index :: documented
  | _ => documented

theorem boundReport {s documented earlier base i} (old : Option Nat)
    (noted : Noted s documented earlier) (target : ParamTarget s base (.ok i)) :
    ∃ report, reportOf documented (.command (.param (some i)) base) (some (.index i)) =
        report.toList ∧
      Outcome s earlier (.command (.param old) base) report (.command (.param (some i)) base) := by
  cases target with
  | @bound arg rest i named kind entry least =>
    have shown : base.shownName = arg.text := by simp [BlockCommand.shownName, named]
    by_cases again : i ∈ documented
    · refine ⟨some (.duplicateParameter arg.text base.header.span i), ?_,
        .paramAgain (.bound named kind entry least) named ((noted i).mp again)⟩
      simp [reportOf, again, shown]
    · refine ⟨none, by simp [reportOf, again], .paramFirst (.bound named kind entry least) ?_⟩
      intro d member binds
      exact again ((noted i).mpr ⟨d, member, binds⟩)

theorem bindOutcome {documented earlier c info binding after next}
    (ok : c.bind info = .ok (binding, after, next))
    (noted : Noted info.fill.1 documented earlier) :
    (∃ report, reportOf documented after binding = report.toList ∧
      Outcome info.fill.1 earlier c report after) ∧
    Noted info.fill.1 (noteOf documented binding) (earlier ++ [c]) ∧
    next.fill.1 = info.fill.1 := by
  unfold Comment.bind at ok
  split at ok
  · rename_i old base
    obtain ⟨target, same⟩ := findParamTarget base info
    cases result : base.findParam info with
    | mk found filled =>
      rw [result] at ok target same
      cases found with
      | ok i =>
        obtain ⟨form, written, last⟩ := bindOk.mp ok
        cases last
        cases Form.withIndexOk written
        exact ⟨boundReport old noted target, notedMore noted target, same⟩
      | error problem =>
        cases ok
        refine ⟨⟨some problem, rfl, .paramFailed target⟩, notedSame noted ?_, same⟩
        intro i binds
        cases paramTargetUnique target binds
  · rename_i old base
    obtain ⟨target, same⟩ := findTParamTarget base info
    cases result : base.findTParam info with
    | mk found filled =>
      rw [result] at ok target same
      cases found with
      | ok path =>
        obtain ⟨form, written, last⟩ := bindOk.mp ok
        cases last
        cases Form.withPositionOk written
        exact ⟨⟨none, rfl, .tparamBound target⟩, notedSame noted (fun i => id), same⟩
      | error problem =>
        cases ok
        exact ⟨⟨some problem, rfl, .tparamFailed target⟩, notedSame noted (fun i => id), same⟩
  · rename_i notParam notTParam
    cases ok
    refine ⟨⟨none, rfl, .other notParam notTParam⟩, notedSame noted ?_, rfl⟩
    intro i binds
    unfold BindsIndex at binds
    split at binds
    · exact notParam _ _ rfl
    · exact binds

theorem resolveFromPass {documented earlier info blocks r}
    (ok : resolveFrom documented info blocks = .ok r)
    (noted : Noted info.fill.1 documented earlier) :
    ∃ reports, Pass info.fill.1 earlier blocks reports r.blocks ∧
      r.problems = reports.filterMap id := by
  -- every declaration on the way gives the first summary, so the pass is about that one alone
  induction blocks generalizing documented earlier info r with
  | nil =>
    cases ok
    exact ⟨[], .nil, rfl⟩
  | cons c rest ih =>
    unfold resolveFrom at ok
    obtain ⟨⟨binding, block, next⟩, bound, ok⟩ := bindOk.mp ok
    obtain ⟨⟨report, listed, head⟩, notedNext, same⟩ := bindOutcome bound noted
    obtain ⟨after, resolved, last⟩ := bindOk.mp ok
    cases last
    rw [← same] at notedNext
    obtain ⟨reports, tail, problems⟩ := ih resolved notedNext
    rw [same] at tail
    refine ⟨report :: reports, .cons head tail, ?_⟩
    simp only [listed, problems]
    cases report <;> simp

theorem passLengths {s earlier blocks reports afters} (h : Pass s earlier blocks reports afters) :
    reports.length = blocks.length ∧ afters.length = blocks.length := by
  induction h with
  | nil => exact ⟨rfl, rfl⟩
  | cons head tail ih => simpa using ih

theorem passAt {s earlier blocks reports afters} (h : Pass s earlier blocks reports afters)
    {k : Nat} {c : Comment} (position : blocks[k]? = some c) :
    ∃ report after, reports[k]? = some report ∧ afters[k]? = some after ∧
      Outcome s (earlier ++ blocks.take k) c report after := by
  induction h generalizing k with
  | nil => simp at position
  | @cons earlier first rest report reports after afters head tail ih =>
    cases k with
    | zero =>
      cases Option.some.inj position
      exact ⟨report, after, rfl, rfl, by simpa using head⟩
    | succ k =>
      obtain ⟨report, after, here, there, outcome⟩ := ih (k := k) (by simpa using position)
      exact ⟨report, after, by simpa using here, by simpa using there, by simpa using outcome⟩

theorem outcomeIndex {s earlier c report after i} (h : Outcome s earlier c report after)
    (binds : BindsIndex s i c) (t : CommandTable) :
    after.perform t .paramIndex = .ok (.number i, after) := by
  cases h with
  | paramFailed target => cases paramTargetUnique target binds
  | paramFirst target first => cases paramTargetUnique target binds; rfl
  | paramAgain target named again => cases paramTargetUnique target binds; rfl
  | tparamFailed target => exact absurd binds id
  | tparamBound target => exact absurd binds id
  | other notParam notTParam =>
    unfold BindsIndex at binds
    split at binds
    · exact absurd rfl (notParam _ _)
    · contradiction

theorem tparamTargetUnique {s b x y} (left : TParamTarget s b x) (right : TParamTarget s b y) :
    x = y := by
  cases left <;> cases right <;> simp_all

theorem outcomePosition {s earlier c report after path} (h : Outcome s earlier c report after)
    (binds : BindsPosition s path c) (t : CommandTable) :
    after.perform t .position = .ok (.position path, after) := by
  cases h with
  | tparamFailed target => cases tparamTargetUnique target binds
  | tparamBound target =>
    cases tparamTargetUnique target binds
    cases target with
    | bound named kind list found =>
      obtain ⟨i, tail, rfl⟩ := List.exists_cons_of_ne_nil (TemplateParam.searchNonempty found)
      rfl
  | paramFailed target => exact absurd binds id
  | paramFirst target first => exact absurd binds id
  | paramAgain target named again => exact absurd binds id
  | other notParam notTParam =>
    unfold BindsPosition at binds
    split at binds
    · exact absurd rfl (notTParam _ _)
    · contradiction

theorem bindTotal {info : DeclInfo} (fits : info.fill.1.params.length ≤ Form.sentinel)
    (c : Comment) : ∃ out, c.bind info = .ok out := by
  unfold Comment.bind
  split
  · rename_i old base
    have target := (findParamTarget base info).1
    cases result : base.findParam info with
    | mk found filled =>
      rw [result] at target
      cases target with
      | @bound arg rest i named kind entry least =>
        have inside : i < info.fill.1.params.length := (List.getElem?_eq_some_iff.mp entry).1
        have valid : i ≠ Form.sentinel := by omega
        exact ⟨_, bindOk.mpr ⟨_, if_neg valid, rfl⟩⟩
      | _ => exact ⟨_, rfl⟩
  · rename_i old base
    have target := (findTParamTarget base info).1
    cases result : base.findTParam info with
    | mk found filled =>
      rw [result] at target
      cases target with
      | bound named kind list found =>
        exact ⟨_, bindOk.mpr ⟨_, if_neg (TemplateParam.searchNonempty found), rfl⟩⟩
      | _ => exact ⟨_, rfl⟩
  · exact ⟨_, rfl⟩

theorem notedNothing (s : Summary) : Noted s [] [] := by simp [Noted]

theorem resolveFromTotal {info} (documented : List Nat) (blocks : List Comment)
    (fits : info.fill.1.params.length ≤ Form.sentinel) :
    ∃ r, resolveFrom documented info blocks = .ok r := by
  induction blocks generalizing documented info with
  | nil => exact ⟨_, rfl⟩
  | cons c rest ih =>
    obtain ⟨⟨binding, block, next⟩, bound⟩ := bindTotal fits c
    have same := (bindOutcome bound (notedNothing _)).2.2
    obtain ⟨after, resolved⟩ := ih (noteOf documented binding) (same ▸ fits)
    exact ⟨_, bindOk.mpr ⟨_, bound, bindOk.mpr ⟨after, resolved, rfl⟩⟩⟩

theorem resolveReports (f : FullComment) :
    (f.info.fill.1.params.length ≤ Form.sentinel →
      ∃ problems g, f.resolve = .ok (problems, g)) ∧
    ∀ problems g, f.resolve = .ok (problems, g) →
      ∃ reports : List (Option ResolveError), problems = reports.filterMap id ∧
        reports.length = f.blocks.length ∧ g.blocks.length = f.blocks.length ∧
        ∀ k c, f.blocks[k]? = some c →
          ∃ report after, reports[k]? = some report ∧ g.blocks[k]? = some after ∧
            Outcome f.info.fill.1 (f.blocks.take k) c report after ∧
            (∀ i, BindsIndex f.info.fill.1 i c →
              ∀ t, after.perform t .paramIndex = .ok (.number i, after)) ∧
            (∀ path, BindsPosition f.info.fill.1 path c →
              ∀ t, after.perform t .position = .ok (.position path, after)) := by
  constructor
  · intro fits
    obtain ⟨r, ok⟩ := resolveFromTotal [] f.blocks fits
    exact ⟨_, _, bindOk.mpr ⟨r, ok, rfl⟩⟩
  · intro problems g ok
    obtain ⟨r, resolved, last⟩ := bindOk.mp ok
    cases last
    obtain ⟨reports, pass, listed⟩ := resolveFromPass resolved (notedNothing _)
    refine ⟨reports, listed, (passLengths pass).1, (passLengths pass).2, ?_⟩
    intro k c position
    obtain ⟨report, after, here, there, outcome⟩ := passAt pass position
    refine ⟨report, after, here, there, by simpa using outcome, ?_, ?_⟩
    · intro i binds t
      exact outcomeIndex outcome binds t
    · intro path binds t
      exact outcomePosition outcome binds t

end DocTree.Resolution
