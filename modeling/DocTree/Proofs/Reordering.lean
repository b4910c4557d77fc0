import DocTree.Proofs.Rebinding

/-! A pass over the same blocks in another order. What a block is bound to depends on the block
and the declaration alone. Only the reports of duplicates look at the order: of the commands that
are bound to one index all but the first are reported, whichever of them comes first. -/
namespace DocTree

namespace Comment
open Resolution

variable {c after : Comment} {i j next : DeclInfo} {binding : Option Binding}
  {documented : List Nat} {k : Nat}

def boundBy (i : DeclInfo) (c : Comment) : Option Binding × Comment :=
  match c.bind i with
  | .ok (binding, after, _) => (binding, after)
  | .error _ => (none, c)

theorem boundByOk (ok : c.bind i = .ok (binding, after, next)) :
    c.boundBy i = (binding, after) := by
  simp [boundBy, ok]

theorem bindAlike (summary : j.fill.1 = i.fill.1) (ok : c.bind i = .ok (binding, after, next)) :
    c.bind j = .ok (binding, after, j.askedBy c.asks) := by
  obtain ⟨_, failed, _, again⟩ := bindTwin summary (.same c) ok
  rw [again]
  cases own : fails binding with
  | true => simp [failed own]
  | false => simp

inductive Binds : Comment → Option Binding → Comment → Prop where
  | index {old base index} :
      Binds (.command (.param old) base) (some (.index index)) (.command (.param (some index)) base)
  | position {old base path} :
      Binds (.command (.tparam old) base) (some (.position path)) (.command (.tparam path) base)
  | failed {d problem} (own : problem.isDuplicate = false) : Binds d (some (.failed problem)) d
  | other {d} : Binds d none d

theorem bindBinds (ok : c.bind i = .ok (binding, after, next)) : Binds c binding after := by
  have whole := ok
  cases c with
  | command form base =>
    cases form with
    | param old =>
      rw [bindParam] at ok
      cases found : (base.findParam i).1 with
      | ok index =>
        rw [found] at ok
        obtain ⟨form, written, last⟩ := bindOk.mp ok
        cases last
        cases Form.withIndexOk written
        exact .index
      | error problem =>
        rw [found] at ok
        cases ok
        exact .failed (failedReport whole)
    | tparam old =>
      rw [bindTParam] at ok
      cases found : (base.findTParam i).1 with
      | ok path =>
        rw [found] at ok
        obtain ⟨form, written, last⟩ := bindOk.mp ok
        cases last
        cases Form.withPositionOk written
        exact .position
      | error problem =>
        rw [found] at ok
        cases ok
        exact .failed (failedReport whole)
    | _ =>
      cases ok
      exact .other
  | _ =>
    cases ok
    exact .other

theorem boundByBinds (ok : ∃ out, c.bind i = .ok out) :
    Binds c (c.boundBy i).1 (c.boundBy i).2 := by
  obtain ⟨⟨binding, after, next⟩, bound⟩ := ok
  rw [boundByOk bound]
  exact bindBinds bound

def failure? : Option Binding → Option ResolveError
  | some (.failed problem) => some problem
  | _ => none

namespace Binds

variable (h : Binds c binding after)
include h

theorem others (documented : List Nat) :
    (reportOf documented after binding).filter (!·.isDuplicate) = (failure? binding).toList := by
  cases h with
  | index =>
    simp only [reportOf]
    split <;> simp [failure?, ResolveError.isDuplicate, ResolveError.index?]
  | failed own => simp [reportOf, failure?, own]
  | _ => rfl

theorem duplicates (documented : List Nat) (k : Nat) :
    (reportOf documented after binding).countP (·.index? == some k) =
      if binding = some (.index k) ∧ k ∈ documented then 1 else 0 := by
  cases h with
  | @index old base index =>
    by_cases again : index ∈ documented
    · by_cases same : index = k <;> simp_all [reportOf, ResolveError.index?]
    · by_cases same : index = k <;> simp_all [reportOf]
  | @failed _ problem own =>
    have none : problem.index? = none := by simpa [ResolveError.isDuplicate] using own
    simp [reportOf, none]
  | _ => simp [reportOf]

theorem shown (fresh : c.bound? = none) (k : Nat) :
    after.bound? = some (.index k) ↔ binding = some (.index k) := by
  cases h with
  | index => simp [bound?]
  | @position old base path => cases path <;> simp [bound?]
  | failed own => simp [fresh]
  | other => simp [fresh]

end Binds
end Comment

namespace Resolution
open Comment

variable {i j : DeclInfo} {documented : List Nat} {blocks : List Comment} {k : Nat}

abbrev Row := Option Binding × Comment

def reportsOf (documented : List Nat) : List Row → List ResolveError
  | [] => []
  | (binding, after) :: rest =>
    reportOf documented after binding ++ reportsOf (noteOf documented binding) rest

theorem othersReported {rows : List Row} (binds : ∀ row ∈ rows, ∃ c, Binds c row.1 row.2)
    (documented : List Nat) : (reportsOf documented rows).filter (!·.isDuplicate) =
      rows.filterMap fun row => failure? row.1 := by
  induction rows generalizing documented with
  | nil => rfl
  | cons row rest ih =>
    rw [List.forall_mem_cons] at binds
    obtain ⟨⟨c, head⟩, tail⟩ := binds
    rw [reportsOf, List.filter_append, head.others, ih tail, List.filterMap_cons]
    cases failure? row.1 <;> rfl

theorem duplicatesReported {rows : List Row} (binds : ∀ row ∈ rows, ∃ c, Binds c row.1 row.2)
    (documented : List Nat) (k : Nat) :
    (reportsOf documented rows).countP (·.index? == some k) =
      rows.countP (·.1 == some (.index k)) - if k ∈ documented then 0 else 1 := by
  induction rows generalizing documented with
  | nil => simp [reportsOf]
  | cons row rest ih =>
    rw [List.forall_mem_cons] at binds
    obtain ⟨⟨c, head⟩, tail⟩ := binds
    rw [reportsOf, List.countP_append, head.duplicates, ih tail, List.countP_cons]
    by_cases own : row.1 = some (.index k)
    · by_cases noted : k ∈ documented <;> simp [own, noted, noteOf]
      omega
    · have same : k ∈ noteOf documented row.1 ↔ k ∈ documented := by
        unfold noteOf
        split
        · rename_i index bound
          have other : k ≠ index := by
            rintro rfl
            exact own bound
          simp [other]
        · rfl
      simp [own, same]

theorem resolveEach {r : Resolution} (summary : j.fill.1 = i.fill.1)
    (ok : resolveFrom documented j blocks = .ok r) :
    ∀ c ∈ blocks, ∃ out, c.bind i = .ok out := by
  induction blocks generalizing documented j r with
  | nil => simp
  | cons c rest ih =>
    obtain ⟨⟨binding, after, next⟩, bound, ok⟩ := bindOk.mp ok
    obtain ⟨later, resolved, _⟩ := bindOk.mp ok
    have same : next.fill.1 = j.fill.1 := (bindOutcome bound (notedNothing _)).2.2
    rw [List.forall_mem_cons]
    exact ⟨⟨_, bindAlike summary.symm bound⟩, ih (same.trans summary) resolved⟩

theorem resolveRows (documented : List Nat) (summary : j.fill.1 = i.fill.1)
    (each : ∀ c ∈ blocks, ∃ out, c.bind i = .ok out) : ∃ info,
    resolveFrom documented j blocks = .ok ⟨blocks.map fun c => (c.boundBy i).2,
      reportsOf documented (blocks.map (boundBy i)), info⟩ := by
  induction blocks generalizing documented j with
  | nil => exact ⟨j, rfl⟩
  | cons c rest ih =>
    rw [List.forall_mem_cons] at each
    obtain ⟨⟨⟨binding, after, next⟩, bound⟩, tail⟩ := each
    have asked : (j.askedBy c.asks).fill.1 = i.fill.1 := by rw [DeclInfo.askedFill, summary]
    obtain ⟨info, resolved⟩ := ih (noteOf documented binding) asked tail
    refine ⟨info, bindOk.mpr ⟨_, bindAlike summary bound, bindOk.mpr ⟨_, resolved, ?_⟩⟩⟩
    simp only [List.map_cons, boundByOk bound, reportsOf]
    rfl

theorem rowsBound (each : ∀ c ∈ blocks, ∃ out, c.bind i = .ok out) :
    ∀ row ∈ blocks.map (boundBy i), ∃ c, Binds c row.1 row.2 := by
  rintro _ member
  obtain ⟨c, listed, rfl⟩ := List.mem_map.mp member
  exact ⟨c, boundByBinds (each c listed)⟩

theorem indexShown (each : ∀ c ∈ blocks, ∃ out, c.bind i = .ok out)
    (fresh : ∀ c ∈ blocks, c.bound? = none) (k : Nat) :
    (blocks.map fun c => (c.boundBy i).2).countP (·.bound? == some (.index k)) =
      (blocks.map (boundBy i)).countP (·.1 == some (.index k)) := by
  rw [List.countP_map, List.countP_map]
  refine List.countP_congr fun c listed => ?_
  simpa using (boundByBinds (each c listed)).shown (fresh c listed) k

end Resolution

namespace FullComment
open Comment Resolution

variable {f h : FullComment}

structure Reordered (f h g e : FullComment) (problems reports : List ResolveError) : Prop where
  bindings : ∃ after : Comment → Comment, g.blocks = f.blocks.map after ∧
    e.blocks = h.blocks.map after
  others : (reports.filter (!·.isDuplicate)).Perm (problems.filter (!·.isDuplicate))
  duplicates (k : Nat) : problems.countP (·.index? == some k) =
    g.blocks.countP (·.bound? == some (.index k)) - 1
  again (k : Nat) : reports.countP (·.index? == some k) = problems.countP (·.index? == some k)

theorem orderIndependent (summary : h.info.fill.1 = f.info.fill.1)
    (reordered : h.blocks.Perm f.blocks) (fresh : ∀ c ∈ f.blocks, c.bound? = none) :
    (f.info.fill.1.params.length ≤ Form.sentinel →
      ∃ problems g, f.resolve = .ok (problems, g)) ∧
    ∀ problems g, f.resolve = .ok (problems, g) →
      ∃ reports e, h.resolve = .ok (reports, e) ∧ Reordered f h g e problems reports := by
  refine ⟨resolveTotal f, fun problems g ok => ?_⟩
  obtain ⟨r, resolved, last⟩ := bindOk.mp ok
  cases last
  have each := resolveEach rfl resolved
  have others : ∀ c ∈ h.blocks, ∃ out, c.bind f.info = .ok out :=
    fun c listed => each c (reordered.mem_iff.mp listed)
  have rows := reordered.map (boundBy f.info)
  obtain ⟨info, own⟩ := resolveRows [] rfl each
  obtain ⟨after, other⟩ := resolveRows [] summary others
  cases resolved.symm.trans own
  refine ⟨_, _, bindOk.mpr ⟨_, other, rfl⟩, ⟨_, rfl, rfl⟩, ?_, fun k => ?_, fun k => ?_⟩
  · rw [othersReported (rowsBound others), othersReported (rowsBound each)]
    exact rows.filterMap _
  · rw [duplicatesReported (rowsBound each)]
    simp [indexShown each fresh k]
  · rw [duplicatesReported (rowsBound others), duplicatesReported (rowsBound each),
      rows.countP_eq]

def namedParam (start stop : UInt32) (name : String) : Comment :=
  .command (.param none) <|
    (BlockCommand.ofKind .paramCommand (.valid start) (.valid stop) 11).setArgs
      [⟨⟨.valid start, .valid stop⟩, name⟩]

def repeated : FullComment :=
  ofBlocks [namedParam 0 6 "a", namedParam 10 16 "b", namedParam 20 26 "a"]
    (.ofDecl (.constant "f" (.function ["a"])))

def repeatedBackwards : FullComment :=
  ofBlocks repeated.blocks.reverse (.ofDecl (.constant "f" (.function ["a"])))

theorem repeatedAlike : repeatedBackwards.blocks.Perm repeated.blocks ∧
    (∀ c ∈ repeated.blocks, c.bound? = none) ∧ ∃ g e,
      repeated.resolve = .ok ([.unknownParameter "b" ⟨.valid 10, .valid 16⟩,
        .duplicateParameter "a" ⟨.valid 20, .valid 26⟩ 0], g) ∧
      repeatedBackwards.resolve = .ok ([.unknownParameter "b" ⟨.valid 10, .valid 16⟩,
        .duplicateParameter "a" ⟨.valid 0, .valid 6⟩ 0], e) ∧
      Reordered repeated repeatedBackwards g e
        [.unknownParameter "b" ⟨.valid 10, .valid 16⟩,
          .duplicateParameter "a" ⟨.valid 20, .valid 26⟩ 0]
        [.unknownParameter "b" ⟨.valid 10, .valid 16⟩,
          .duplicateParameter "a" ⟨.valid 0, .valid 6⟩ 0] := by
  have reordered : repeatedBackwards.blocks.Perm repeated.blocks := List.reverse_perm _
  have fresh : ∀ c ∈ repeated.blocks, c.bound? = none := by
    simp [repeated, ofBlocks, namedParam, bound?]
  have summary : repeatedBackwards.info.fill.1 = repeated.info.fill.1 := rfl
  obtain ⟨reports, e, other, alike⟩ := (orderIndependent summary reordered fresh).2 _ _ rfl
  cases other
  exact ⟨reordered, fresh, _, _, rfl, rfl, alike⟩

end FullComment
end DocTree
