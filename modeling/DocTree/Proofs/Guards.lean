import DocTree.Proofs.FirstSummary
import DocTree.Proofs.Making

/-! Reads and writes that may fault, behind their guards. A name, an index and a path are read
where a test some way before says that they are there, and an index and a path are written where
the search that found them says that they may be. Here every such access is spelled out. The
operations come to the same that way, so a tree that can be made never runs into a fault. -/
namespace DocTree

namespace BlockCommand

variable {α : Type}

def guardedName (b : BlockCommand α) : Run (Option Argument) :=
  if b.hasName then do return some (← b.nameArg) else return none

theorem nameGuarded (b : BlockCommand α) : b.guardedName = .ok b.args.head? := by
  unfold guardedName hasName nameArg
  cases b.args <;> rfl

def guardedShown (b : BlockCommand α) : Run String := do
  return (← b.guardedName).elim "" Argument.text

theorem shownGuarded (b : BlockCommand α) : b.guardedShown = .ok b.shownName := by
  unfold guardedShown shownName
  rw [nameGuarded]
  cases b.args <;> rfl

def guardedDisplay (form : Form) (b : BlockCommand α) : Run String :=
  match form with
  | .param _ => do
    let name ← b.guardedShown
    return s!"Param({b.direction.display} {name})"
  | .tparam _ => do
    let name ← b.guardedShown
    return s!"TParam({name})"
  | form => .ok (b.display form)

theorem displayGuarded (form : Form) (b : BlockCommand α) :
    b.guardedDisplay form = .ok (b.display form) := by
  cases form with
  | param | tparam =>
    unfold guardedDisplay
    rw [shownGuarded]
    rfl
  | _ => rfl

def guardedFind {β : Type} (find : BlockCommand α → DeclInfo → β × DeclInfo)
    (b : BlockCommand α) (info : DeclInfo) : Run (β × DeclInfo) := do
  return find { b with args := (← b.guardedName).toList } info

theorem paramGuarded (b : BlockCommand α) (info : DeclInfo) :
    b.guardedFind findParam info = .ok (b.findParam info) := by
  obtain ⟨header, _ | ⟨name, rest⟩, paragraph⟩ := b <;> rfl

theorem tparamGuarded (b : BlockCommand α) (info : DeclInfo) :
    b.guardedFind findTParam info = .ok (b.findTParam info) := by
  obtain ⟨header, _ | ⟨name, rest⟩, paragraph⟩ := b <;> rfl

end BlockCommand

namespace Form

def guardedAttributes (form : Form) (base : BlockCommand Comment) :
    Run (List (String × String)) := do
  match form with
  | .param index =>
    let name := (← base.guardedName).toList.map fun name => ("name", name.text)
    let bound ← if index.isSome then do
        let i ← Comment.indexOf index
        pure [("index", s!"{i}")]
      else pure []
    return [("direction", base.direction.display),
      ("explicit", Record.truth base.isDirectionExplicit)] ++ name ++ bound
  | .tparam position =>
    let name := (← base.guardedName).toList.map fun name => ("name", name.text)
    let bound ← if !position.isEmpty then do
        let path ← Comment.positionOf position
        pure [("position", String.intercalate "," (path.map fun i => s!"{i}"))]
      else pure []
    return name ++ bound
  | form => return form.snapshotAttributes base

theorem attributesGuarded (form : Form) (base : BlockCommand Comment) :
    form.guardedAttributes base = .ok (form.snapshotAttributes base) := by
  obtain ⟨header, args, paragraph⟩ := base
  cases form with
  | param index => cases index <;> cases args <;> rfl
  | tparam position => cases position <;> cases args <;> rfl
  | _ => rfl

end Form

namespace Comment

def guardedDisplay : Comment → Run String
  | .command form base => base.guardedDisplay form
  | c => .ok c.display

theorem displayGuarded (c : Comment) : c.guardedDisplay = .ok c.display := by
  cases c with
  | command form base => exact base.displayGuarded form
  | _ => rfl

def guardedNode (t : CommandTable) : Comment → Run Snapshot
  | .command form base => do
    let own ← form.guardedAttributes base
    return (Snapshot.leaf base.header.kind.name (t.labelOf base.id)).withAttributes
      (own ++ argAttributes base.args)
  | c => c.snapshotNode t

theorem nodeGuarded (t : CommandTable) (c : Comment) : c.guardedNode t = c.snapshotNode t := by
  cases c with
  | command form base =>
    simp only [guardedNode, Form.attributesGuarded]
    rfl
  | _ => rfl

def guardedSnapshot (t : CommandTable) : Comment → Run Snapshot :=
  fold fun c below => do
    let own ← c.guardedNode t
    let children ← below.mapM id
    return own.withChildren children

theorem snapshotGuarded (t : CommandTable) : guardedSnapshot t = snapshot t := by
  unfold guardedSnapshot snapshot
  simp only [nodeGuarded]

def guardedBind (info : DeclInfo) : Comment → Run (Option Binding × Comment × DeclInfo)
  | .command (.param old) base => do
    match ← base.guardedFind BlockCommand.findParam info with
    | (.ok index, info) =>
      return (some (.index index), .command (← Form.withIndex index) base, info)
    | (.error problem, info) => return (some (.failed problem), .command (.param old) base, info)
  | .command (.tparam old) base => do
    match ← base.guardedFind BlockCommand.findTParam info with
    | (.ok path, info) =>
      return (some (.position path), .command (← Form.withPosition path) base, info)
    | (.error problem, info) => return (some (.failed problem), .command (.tparam old) base, info)
  | c => return (none, c, info)

theorem bindGuarded (info : DeclInfo) (c : Comment) : c.guardedBind info = c.bind info := by
  cases c with
  | command form base =>
    cases form with
    | param old =>
      simp only [guardedBind, BlockCommand.paramGuarded]
      rfl
    | tparam old =>
      simp only [guardedBind, BlockCommand.tparamGuarded]
      rfl
    | _ => rfl
  | _ => rfl

end Comment

namespace Resolution
open Comment

def guardedReport (documented : List Nat) (c : Comment) (binding : Option Binding) :
    Run (List ResolveError) :=
  match binding, c with
  | some (.index index), .command _ base => do
    let name ← base.nameArg
    return if documented.contains index then
        [.duplicateParameter name.text base.header.span index]
      else []
  | binding, c => return reportOf documented c binding

theorem boundNamed {info next : DeclInfo} {c after : Comment} {i : Nat}
    (bound : c.bind info = .ok (some (.index i), after, next)) :
    ∃ form base name rest, after = .command form base ∧ base.args = name :: rest := by
  cases c with
  | command form base =>
    cases form with
    | param old =>
      rw [bindParam] at bound
      have target := (findParamTarget base info).1
      cases found : (base.findParam info).1 with
      | error problem => rw [found] at bound; cases bound
      | ok index =>
        rw [found] at bound target
        obtain ⟨form, _, same⟩ := bindOk.mp bound
        cases same
        cases target with
        | bound named => exact ⟨form, base, _, _, rfl, named⟩
    | tparam old =>
      rw [bindTParam] at bound
      cases found : (base.findTParam info).1 with
      | error problem => rw [found] at bound; cases bound
      | ok path =>
        rw [found] at bound
        obtain ⟨_, _, same⟩ := bindOk.mp bound
        cases same
    | _ => cases bound
  | _ => cases bound

theorem reportGuarded {info next : DeclInfo} {c after : Comment} {binding}
    (bound : c.bind info = .ok (binding, after, next)) (documented : List Nat) :
    guardedReport documented after binding = .ok (reportOf documented after binding) := by
  cases binding with
  | none => rfl
  | some binding =>
    cases binding with
    | index i =>
      obtain ⟨form, ⟨header, args, paragraph⟩, name, rest, rfl, rfl⟩ := boundNamed bound
      rfl
    | _ => rfl

def guardedFrom (documented : List Nat) (info : DeclInfo) : List Comment → Run Resolution
  | [] => .ok ⟨[], [], info⟩
  | c :: rest => do
    let (binding, block, info) ← c.guardedBind info
    let reports ← guardedReport documented block binding
    let after ← guardedFrom (noteOf documented binding) info rest
    return ⟨block :: after.blocks, reports ++ after.problems, after.info⟩

theorem fromGuarded (documented : List Nat) (info : DeclInfo) (blocks : List Comment) :
    guardedFrom documented info blocks = resolveFrom documented info blocks := by
  induction blocks generalizing documented info with
  | nil => rfl
  | cons c rest ih =>
    unfold guardedFrom resolveFrom
    rw [bindGuarded]
    cases bound : c.bind info with
    | error fault => rfl
    | ok result =>
      obtain ⟨binding, block, next⟩ := result
      show guardedReport documented block binding >>= _ = _
      rw [reportGuarded bound]
      show guardedFrom (noteOf documented binding) next rest >>= _ = _
      rw [ih]
      rfl

inductive Rebinds (s : Summary) (c d : Comment) : Prop where
  | kept (same : d.bound? = c.bound?)
  | index {i} (bound : d.bound? = some (.index i)) (inside : i < s.params.length)
      (valid : i ≠ Form.sentinel)
  | position {path} (bound : d.bound? = some (.position path)) (led : path ≠ [])

theorem rebindsTrans {s : Summary} {b c d : Comment} (first : Rebinds s b c)
    (second : Rebinds s c d) : Rebinds s b d := by
  cases second with
  | index bound inside valid => exact .index bound inside valid
  | position bound led => exact .position bound led
  | kept same =>
    cases first with
    | kept before => exact .kept (same.trans before)
    | index bound inside valid => exact .index (same.trans bound) inside valid
    | position bound led => exact .position (same.trans bound) led

theorem rereadBound {c d : Comment} (h : Reread c d) : d.bound? = c.bound? := by
  induction h with
  | trans first second left right => exact right.trans left
  | @command form =>
    cases form with
    | param index => cases index <;> rfl
    | tparam position => cases position <;> rfl
    | _ => rfl
  | _ => rfl

theorem foundRebinds {s : Summary} {c d : Comment} (fits : s.params.length ≤ Form.sentinel)
    (found : Found s c d.bound?) : Rebinds s c d := by
  generalize bound : d.bound? = binding at found
  cases found with
  | index target =>
    cases target with
    | bound named kind entry least =>
      have inside := (List.getElem?_eq_some_iff.mp entry).1
      exact .index bound inside (by omega)
  | position target =>
    cases target with
    | bound named kind list found => exact .position bound (TemplateParam.searchNonempty found)
  | other notParam notTParam => exact .kept (bound.trans (boundOther notParam notTParam).symm)

theorem passRebinds {s : Summary} {earlier blocks reports afters}
    (fits : s.params.length ≤ Form.sentinel) (pass : Pass s earlier blocks reports afters) :
    List.Forall₂ (Rebinds s) blocks afters := by
  induction pass with
  | nil => exact .nil
  | @cons earlier c rest report reports after afters head tail ih =>
    refine .cons ?_ ih
    by_cases failed : Failed report
    · exact .kept (congrArg bound? ((outcomeBound head).1 failed))
    · exact foundRebinds fits ((outcomeBound head).2 failed)

end Resolution

namespace FullComment
open Comment Resolution

variable {m : Mode} {t : CommandTable} {f : FullComment}

def guardedResolve (f : FullComment) : Run (List ResolveError × FullComment) := do
  let r ← guardedFrom [] f.info f.blocks
  return (r.problems, { f with blocks := r.blocks, info := r.info })

def guardedSnapshot (t : CommandTable) (f : FullComment) : Run Snapshot := do
  let children ← f.blocks.mapM (Comment.guardedSnapshot t)
  return .node f.kind.name f.declName [] children

/-- The steps a comment takes by itself. The other two read a name for a visitor that did not
ask whether there is one, and compare a tree with what a test expects. -/
def Step.isOwn : Step → Bool
  | .paramNames | .expect _ => false
  | _ => true

def guardedPerform (t : CommandTable) (step : Step) (f : FullComment) :
    Run (Answer × FullComment) :=
  match step with
  | .resolve => do
    let (problems, f) ← f.guardedResolve
    return (.problems problems, f)
  | .outline => do return (.text (← f.guardedSnapshot t).outline, ← f.settle)
  | .json => do return (.text (← f.guardedSnapshot t).json, ← f.settle)
  | step => f.perform t step

def guardedRun (t : CommandTable) (f : FullComment) : List Step → Run (List (Answer × FullComment))
  | [] => .ok []
  | s :: rest => do
    let (answer, g) ← f.guardedPerform t s
    return (answer, g) :: (← guardedRun t g rest)

theorem performGuarded (t : CommandTable) (s : Step) (f : FullComment) :
    f.guardedPerform t s = f.perform t s := by
  have taken : f.guardedSnapshot t = f.snapshot t := by
    unfold guardedSnapshot
    rw [snapshotGuarded]
    rfl
  have resolved : f.guardedResolve = f.resolve := by
    unfold guardedResolve
    rw [fromGuarded]
    rfl
  cases s with
  | resolve => simp only [guardedPerform, perform, resolved]
  | outline | json => simp only [guardedPerform, perform, taken]
  | _ => rfl

theorem ownFaultless {s : Step} (own : s.isOwn = true) (made : Made m (.tree f))
    (fits : f.info.fill.1.params.length ≤ Form.sentinel) :
    ∃ answer g, f.perform t s = .ok (answer, g) := by
  cases s with
  | resolve =>
    obtain ⟨problems, g, ok⟩ := resolveTotal f fits
    exact ⟨_, g, bindOk.mpr ⟨_, ok, rfl⟩⟩
  | outline | json =>
    obtain ⟨s, taken⟩ := snapshotTotal t (madeCached made)
    obtain ⟨g, settled⟩ := settleTotal (madeCached made)
    exact ⟨_, g, bindOk.mpr ⟨s, taken, bindOk.mpr ⟨g, settled, rfl⟩⟩⟩
  | paramNames | expect => cases own
  | _ => exact ⟨_, _, rfl⟩

theorem performRebinds {s : Step} {answer} {g : FullComment}
    (fits : f.info.fill.1.params.length ≤ Form.sentinel)
    (ok : f.perform t s = .ok (answer, g)) (cached : ∀ c ∈ f.blocks, Everywhere Cached c) :
    List.Forall₂ (Rebinds f.info.fill.1) f.blocks g.blocks := by
  rcases performRead ok cached with read | ⟨problems, resolved⟩
  · exact read.blocks.imp fun _ _ reread => .kept (rereadBound reread)
  · obtain ⟨_, reports, _, pass, _⟩ := resolveTwin rfl (twinsSame f.blocks) resolved
    exact passRebinds fits pass

theorem performSummary {s : Step} {answer} {g : FullComment}
    (fits : f.info.fill.1.params.length ≤ Form.sentinel)
    (ok : f.perform t s = .ok (answer, g)) : g.info.fill.1 = f.info.fill.1 := by
  obtain ⟨reply, next, served, info, _⟩ := serves f t (.step s) fits
  rw [performServe ok] at served
  cases served
  rw [info, DeclInfo.askedFill]

theorem performMade {s : Step} {answer} {g : FullComment} (made : Made m (.tree f))
    (ok : f.perform t s = .ok (answer, g)) : Made m (.tree g) := by
  have next := Made.use made t (.visit s)
  simp only [Root.use, step, ok] at next
  exact next

theorem runGuarded (made : Made m (.tree f)) (fits : f.info.fill.1.params.length ≤ Form.sentinel)
    (t : CommandTable) (steps : List Step) (own : ∀ s ∈ steps, s.isOwn = true) :
    ∃ trace, f.guardedRun t steps = .ok trace ∧
      f.run t steps = trace.map (fun (answer, g) => (.ok answer, g)) ∧
      ∀ answer g, (answer, g) ∈ trace →
        List.Forall₂ (Rebinds f.info.fill.1) f.blocks g.blocks := by
  induction steps generalizing f with
  | nil => exact ⟨[], rfl, rfl, by simp⟩
  | cons s rest ih =>
    rw [List.forall_mem_cons] at own
    obtain ⟨answer, g, ok⟩ := ownFaultless (t := t) own.1 made fits
    have summary := performSummary fits ok
    have bound := performRebinds fits ok (madeCached made)
    obtain ⟨trace, guarded, plain, along⟩ := ih (performMade made ok) (summary ▸ fits) own.2
    refine ⟨(answer, g) :: trace, ?_, ?_, ?_⟩
    · refine bindOk.mpr ⟨_, (performGuarded t s f).trans ok, ?_⟩
      exact bindOk.mpr ⟨_, guarded, rfl⟩
    · simp only [run, step, ok, plain, List.map_cons]
    · intro other h member
      rcases List.mem_cons.mp member with same | later
      · cases same
        exact bound
      · rw [summary] at along
        exact relatedTrans rebindsTrans bound (along other h later)

theorem guardsSuffice (made : Made m (.tree f))
    (fits : f.info.fill.1.params.length ≤ Form.sentinel) (t : CommandTable) (steps : List Step)
    (own : ∀ s ∈ steps, s.isOwn = true) :
    (∀ c : Comment, c.guardedDisplay = .ok c.display) ∧
    ∃ trace, f.guardedRun t steps = .ok trace ∧
      f.run t steps = trace.map (fun (answer, g) => (.ok answer, g)) ∧
      ∀ answer g, (answer, g) ∈ trace →
        List.Forall₂ (Rebinds f.info.fill.1) f.blocks g.blocks :=
  ⟨displayGuarded, runGuarded made fits t steps own⟩

def unevenBlocks : List Comment :=
  [.param (.valid 0) (.valid 6) 11,
    .command (.param none)
      (((BlockCommand.ofKind .paramCommand (.valid 8) (.valid 14) 11).setDirection .input
        false).setArgs [⟨⟨.valid 15, .valid 16⟩, "b"⟩]),
    .tparam (.valid 18) (.valid 25) 12]

def unevenInfo : DeclInfo := .ofDecl (.constant "f" (.function ["a", "b"]))

theorem unevenMade (m : Mode) : ∀ c ∈ unevenBlocks, Made m (.node c) := by
  have param (start stop : Location) : Made m (.node (.param start stop 11)) :=
    @Made.seed m .empty _ (.param start stop (.id 11)) rfl
  have tparam : Made m (.node (.tparam (.valid 18) (.valid 25) 12)) :=
    @Made.seed m .empty _ (.tparam (.valid 18) (.valid 25) (.id 12)) rfl
  have named := Made.use (param (.valid 8) (.valid 14)) .empty
    (.act (.setArgs [⟨⟨.valid 15, .valid 16⟩, "b"⟩]))
  simp only [unevenBlocks, List.forall_mem_cons]
  exact ⟨param _ _, named, tparam, by simp⟩

theorem unevenGuarded : ∃ f, FullComment.build .checked unevenBlocks unevenInfo = .ok f ∧
    Made .checked (.tree f) ∧ f.info.fill.1.params.length ≤ Form.sentinel ∧
    ∃ trace, f.guardedRun .empty [.resolve, .outline, .resolve, .walk, .violations] = .ok trace := by
  have made : Made .checked (.tree (ofBlocks unevenBlocks unevenInfo)) :=
    .tree (unevenMade .checked) rfl
  have fits : unevenInfo.fill.1.params.length ≤ Form.sentinel := by decide
  obtain ⟨_, trace, guarded, _⟩ := guardsSuffice made fits .empty
    [.resolve, .outline, .resolve, .walk, .violations] (by decide)
  exact ⟨_, rfl, made, fits, trace, guarded⟩

end FullComment
end DocTree
