import DocTree.Resolve

/-! Where template parameters stand. A path leads through nested lists to one
parameter. Paths are ordered like words, so a parameter stands before those of its own
list and siblings stand in order. The search gives the first path to a name, and no path
only if no parameter at any depth has the name. -/
namespace DocTree.TemplateParam

inductive Leads : List TemplateParam → List Nat → TemplateParam → Prop where
  | here {params i p} (entry : params[i]? = some p) : Leads params [i] p
  | inside {params i p nested path q} (entry : params[i]? = some p)
      (list : p.nested = some nested) (next : Leads nested path q) : Leads params (i :: path) q

def Absent (name : String) (params : List TemplateParam) : Prop :=
  ∀ path p, Leads params path p → p.name ≠ some name

structure First (name : String) (params : List TemplateParam) (path : List Nat) : Prop where
  leads : ∃ p, Leads params path p ∧ p.name = some name
  least : ∀ earlier p, earlier < path → Leads params earlier p → p.name ≠ some name

theorem leadsNonempty {params path p} (h : Leads params path p) : path ≠ [] := by
  cases h <;> simp

theorem leadsNil {path q} : ¬ Leads [] path q := by
  intro h
  cases h <;> simp_all

theorem leadsHead {p rest path q} : Leads (p :: rest) (0 :: path) q ↔
    path = [] ∧ q = p ∨ ∃ nested, p.nested = some nested ∧ Leads nested path q := by
  constructor
  · intro h
    cases h with
    | here entry => exact .inl ⟨rfl, (Option.some.inj entry).symm⟩
    | inside entry list next =>
      cases Option.some.inj entry
      exact .inr ⟨_, list, next⟩
  · rintro (⟨rfl, rfl⟩ | ⟨nested, list, next⟩)
    · exact .here rfl
    · exact .inside rfl list next

theorem leadsTail {p rest i path q} :
    Leads (p :: rest) ((i + 1) :: path) q ↔ Leads rest (i :: path) q := by
  constructor
  · intro h
    cases h with
    | here entry => exact .here (by simpa using entry)
    | inside entry list next => exact .inside (by simpa using entry) list next
  · intro h
    cases h with
    | here entry => exact .here (by simpa using entry)
    | inside entry list next => exact .inside (by simpa using entry) list next

theorem leadsSingle {p path q} (h : Leads [p] path q) : ∃ tail, path = 0 :: tail := by
  rcases path with _ | ⟨i, tail⟩
  · exact absurd rfl (leadsNonempty h)
  cases i with
  | zero => exact ⟨tail, rfl⟩
  | succ i => exact absurd (leadsTail.mp h) leadsNil

theorem absentNil (name : String) : Absent name [] := fun _ _ h => absurd h leadsNil

theorem absentCons {name p rest} (head : Absent name [p]) (tail : Absent name rest) :
    Absent name (p :: rest) := by
  intro path q h
  rcases path with _ | ⟨i, path⟩
  · exact absurd rfl (leadsNonempty h)
  cases i with
  | zero => exact head (0 :: path) q (leadsHead.mpr (leadsHead.mp h))
  | succ i => exact tail (i :: path) q (leadsTail.mp h)

theorem absentNested {name p} (other : p.name ≠ some name)
    (inside : ∀ nested, p.nested = some nested → Absent name nested) : Absent name [p] := by
  intro path q h
  obtain ⟨tail, rfl⟩ := leadsSingle h
  rcases leadsHead.mp h with ⟨_, rfl⟩ | ⟨nested, list, next⟩
  · exact other
  · exact inside nested list tail q next

theorem firstOwn {name p} (own : p.name = some name) : First name [p] [0] := by
  refine ⟨⟨p, .here rfl, own⟩, ?_⟩
  intro earlier q before h
  obtain ⟨tail, rfl⟩ := leadsSingle h
  simp at before

theorem firstNested {name p nested path} (other : p.name ≠ some name)
    (list : p.nested = some nested) (found : First name nested path) :
    First name [p] (0 :: path) := by
  obtain ⟨q, next, named⟩ := found.leads
  refine ⟨⟨q, .inside rfl list next, named⟩, ?_⟩
  intro earlier r before h
  obtain ⟨tail, rfl⟩ := leadsSingle h
  have shorter : tail < path := by simpa [List.cons_lt_cons_iff] using before
  rcases leadsHead.mp h with ⟨_, rfl⟩ | ⟨same, listed, inner⟩
  · exact other
  · cases Option.some.inj (list.symm.trans listed)
    exact found.least tail r shorter inner

theorem firstHead {name p path} (rest : List TemplateParam) (found : First name [p] (0 :: path)) :
    First name (p :: rest) (0 :: path) := by
  obtain ⟨q, next, named⟩ := found.leads
  refine ⟨⟨q, leadsHead.mpr (leadsHead.mp next), named⟩, ?_⟩
  intro earlier r before h
  rcases earlier with _ | ⟨i, tail⟩
  · exact absurd rfl (leadsNonempty h)
  have zero : i = 0 := by
    rcases List.cons_lt_cons_iff.mp before with less | ⟨same, _⟩ <;> omega
  subst i
  exact found.least (0 :: tail) r before (leadsHead.mpr (leadsHead.mp h))

theorem firstTail {name p rest i path} (head : Absent name [p])
    (found : First name rest (i :: path)) : First name (p :: rest) ((i + 1) :: path) := by
  obtain ⟨q, next, named⟩ := found.leads
  refine ⟨⟨q, leadsTail.mpr next, named⟩, ?_⟩
  intro earlier r before h
  rcases earlier with _ | ⟨j, tail⟩
  · exact absurd rfl (leadsNonempty h)
  cases j with
  | zero => exact head (0 :: tail) r (leadsHead.mpr (leadsHead.mp h))
  | succ j =>
    apply found.least (j :: tail) r _ (leadsTail.mp h)
    simpa [List.cons_lt_cons_iff] using before

def EntryOutcome (name : String) (p : TemplateParam) : Option (List Nat) → Prop
  | none => Absent name [p]
  | some path => First name [p] (0 :: path)

def ListOutcome (name : String) (index : Nat) (params : List TemplateParam) :
    Option (List Nat) → Prop
  | none => Absent name params
  | some path => ∃ i tail, path = (index + i) :: tail ∧ First name params (i :: tail)

mutual

theorem pathInOutcome (name : String) (p : TemplateParam) :
    EntryOutcome name p (pathIn? name p) := by
  match p with
  | .mk own none =>
    unfold pathIn?
    split
    · exact firstOwn ‹_›
    · exact absentNested ‹_› (by simp [nested])
  | .mk own (some list) =>
    unfold pathIn?
    split
    · exact firstOwn ‹_›
    · rename_i other
      have inner := pathFromOutcome name 0 list
      cases found : pathFrom? name 0 list with
      | none =>
        rw [found] at inner
        exact absentNested other (by rintro nested ⟨⟩; exact inner)
      | some path =>
        rw [found] at inner
        obtain ⟨i, tail, rfl, first⟩ := inner
        rw [Nat.zero_add]
        exact firstNested other rfl first
termination_by structural p

theorem pathFromOutcome (name : String) (index : Nat) (params : List TemplateParam) :
    ListOutcome name index params (pathFrom? name index params) := by
  match params with
  | [] => exact absentNil name
  | p :: rest =>
    unfold pathFrom?
    have head := pathInOutcome name p
    cases found : pathIn? name p with
    | some path =>
      rw [found] at head
      exact ⟨0, path, rfl, firstHead rest head⟩
    | none =>
      rw [found] at head
      have tail := pathFromOutcome name (index + 1) rest
      dsimp only
      cases later : pathFrom? name (index + 1) rest with
      | none =>
        rw [later] at tail
        exact absentCons head tail
      | some path =>
        rw [later] at tail
        obtain ⟨i, suffix, rfl, first⟩ := tail
        exact ⟨i + 1, suffix, by rw [Nat.add_right_comm, Nat.add_assoc], firstTail head first⟩
termination_by structural params

end

theorem searchFirst {name params path} (found : templatePath? name params = some path) :
    First name params path := by
  have outcome := pathFromOutcome name 0 params
  rw [show pathFrom? name 0 params = some path from found] at outcome
  obtain ⟨i, tail, rfl, first⟩ := outcome
  rwa [Nat.zero_add]

theorem searchAbsent {name params} (failed : templatePath? name params = none) :
    Absent name params := by
  have outcome := pathFromOutcome name 0 params
  rwa [show pathFrom? name 0 params = none from failed] at outcome

theorem searchNonempty {name params path} (found : templatePath? name params = some path) :
    path ≠ [] := by
  obtain ⟨p, leads, _⟩ := (searchFirst found).leads
  exact leadsNonempty leads

theorem templateSearch (name : String) (params : List TemplateParam) :
    ((∃ path, templatePath? name params = some path) ↔
      ∃ path p, Leads params path p ∧ p.name = some name) ∧
    ∀ path, templatePath? name params = some path →
      path ≠ [] ∧ (∃ p, Leads params path p ∧ p.name = some name) ∧
        ∀ earlier p, earlier < path → Leads params earlier p → p.name ≠ some name := by
  refine ⟨⟨?_, ?_⟩, ?_⟩
  · rintro ⟨path, found⟩
    exact ⟨path, (searchFirst found).leads⟩
  · rintro ⟨path, p, leads, named⟩
    cases result : templatePath? name params with
    | some first => exact ⟨first, rfl⟩
    | none => exact absurd named (searchAbsent result path p leads)
  · intro path found
    have first := searchFirst found
    exact ⟨searchNonempty found, first.leads, first.least⟩

example : templatePath? "T" [.mk (some "TT") (some [.mk (some "T") none]),
    .mk (some "T") none] = some [0, 0] := by decide

end DocTree.TemplateParam
