import DocTree.Command.Session
import Mathlib.Data.List.Nodup

/-! The command table as an index. Numbers are positions, no two commands share a name, and
what is found by name is what stands at the number of that name. Appending a new name keeps
this as long as there is room, and a registration does nothing else. -/
namespace DocTree.CommandTable

structure Indexed (t : CommandTable) : Prop where
  bounded : t.size ≤ capacity
  numbered : ∀ i (info : CommandInfo), t.infos[i]? = some info → info.id.toNat = i
  known : ∀ name id, t.ids[name]? = some id ↔ t.name? id = some name

variable {t next : CommandTable} {name : String} {info : CommandInfo} {id : UInt16}
  {configure : CommandInfo → CommandInfo}

theorem nextNumber (room : t.size < capacity) : t.nextId.toNat = t.size :=
  Nat.mod_eq_of_lt room

theorem appendedInfo (i : Nat) :
    (t.append name info).infos[i]? = if i = t.size then some info else t.infos[i]? :=
  Array.getElem?_push

theorem appendedName (named : info.name = name) (id : UInt16) :
    (t.append name info).name? id = if id.toNat = t.size then some name else t.name? id := by
  unfold name? info?
  rw [appendedInfo]
  split
  · rw [Option.map_some, named]
  · rfl

theorem appendedId (other : String) : (t.append name info).ids[other]? =
    if name == other then some t.nextId else t.ids[other]? :=
  Std.HashMap.getElem?_insert

theorem nameInside (h : t.name? id = some name) : id.toNat < t.size := by
  obtain ⟨info, held, _⟩ := Option.map_eq_some_iff.mp h
  exact (Array.getElem?_eq_some_iff.mp held).1

theorem emptyIndexed : Indexed empty := by
  refine ⟨Nat.zero_le _, fun i info held => ?_, fun name id => ?_⟩
  · simp [empty] at held
  · simp [empty, name?, info?]

theorem appendIndexed (h : Indexed t) (room : t.size < capacity) (unknown : t.ids[name]? = none)
    (numbered : info.id = t.nextId) (named : info.name = name) :
    Indexed (t.append name info) := by
  have last := nextNumber room
  constructor
  · show (t.infos.push _).size ≤ capacity
    rw [Array.size_push]
    exact room
  · intro i info held
    rw [appendedInfo] at held
    split at held
    · rename_i here
      cases held
      rw [numbered, last, here]
    · exact h.numbered i info held
  · intro other id
    rw [appendedId, appendedName named]
    by_cases new : id.toNat = t.size
    · have number : t.nextId = id := UInt16.toNat_inj.mp (last.trans new.symm)
      have fresh : t.ids[other]? ≠ some id := by
        intro old
        have := nameInside ((h.known other id).mp old)
        omega
      by_cases same : name = other <;> simp [new, same, number, fresh]
    · have number : t.nextId ≠ id := by
        rintro rfl
        exact new last
      by_cases same : name = other
      · subst same
        have absent : t.name? id ≠ some name := by
          rw [Ne, ← h.known, unknown]
          exact nofun
        simp [new, number, absent]
      · simp [new, same, h.known]

theorem entryMarks (e : Builtin.Entry) (id : UInt16) :
    (e.info id).id = id ∧ (e.info id).name = e.name := by
  obtain ⟨name, numArgs, shape⟩ := e
  cases shape <;> exact ⟨rfl, rfl⟩

theorem builtinsIndexed {entries : List Builtin.Entry} (h : Indexed t)
    (room : t.size + entries.length ≤ capacity) (distinct : (entries.map (·.name)).Nodup)
    (unknown : ∀ e ∈ entries, t.ids[e.name]? = none) :
    Indexed (entries.foldl (fun t e => t.append e.name (e.info t.nextId)) t) := by
  induction entries generalizing t with
  | nil => exact h
  | cons e rest ih =>
    rw [List.map_cons, List.nodup_cons] at distinct
    rw [List.length_cons] at room
    obtain ⟨numbered, named⟩ := entryMarks e t.nextId
    have next := appendIndexed h (by omega) (unknown e (by simp)) numbered named
    refine ih next ?_ distinct.2 ?_
    · show (t.infos.push _).size + rest.length ≤ capacity
      rw [Array.size_push]
      exact Nat.le_trans (by simp [size]; omega) room
    · intro later member
      have other : e.name ≠ later.name := fun same =>
        distinct.1 (same ▸ List.mem_map_of_mem (f := (·.name)) member)
      simp [appendedId, other, unknown later (by simp [member])]

theorem builtinIndexed : Indexed builtin :=
  builtinsIndexed emptyIndexed (by decide) (by decide +kernel) (by simp [empty])

theorem registerKnown (known : t.ids[name]? = some id) (configure : CommandInfo → CommandInfo) :
    t.register configure name = (.ok id, t) := by
  simp only [register, known]

theorem registerNew (unknown : t.ids[name]? = none) (room : t.size < capacity)
    (configure : CommandInfo → CommandInfo) : t.register configure name =
      (.ok t.nextId, t.append name (configure { id := t.nextId, name })) := by
  simp only [register, unknown]
  exact if_pos room

theorem registerFull (unknown : t.ids[name]? = none) (full : ¬ t.size < capacity)
    (configure : CommandInfo → CommandInfo) :
    t.register configure name = (.error ⟨name, capacity⟩, t) := by
  simp only [register, unknown]
  exact if_neg full

def after (t : CommandTable) (actions : List Action) : CommandTable :=
  actions.foldl (fun t action => (t.act action).2) t

inductive Registered : (CommandInfo → CommandInfo) → Prop where
  | block : Registered .asBlock
  | unknown : Registered .asUnknown

theorem Registered.marks (registered : Registered configure) (info : CommandInfo) :
    (configure info).id = info.id ∧ (configure info).name = info.name := by
  cases registered <;> exact ⟨rfl, rfl⟩

structure Stepwise (R : CommandTable → CommandTable → Prop) : Prop where
  same (t : CommandTable) : R t t
  trans {t next last : CommandTable} : R t next → R next last → R t last
  append {t : CommandTable} {name : String} {configure : CommandInfo → CommandInfo}
    (unknown : t.ids[name]? = none) (room : t.size < capacity)
    (registered : Registered configure) :
    R t (t.append name (configure { id := t.nextId, name }))

namespace Stepwise

variable {R : CommandTable → CommandTable → Prop} (stepwise : Stepwise R)
include stepwise

theorem register (t : CommandTable) {configure : CommandInfo → CommandInfo}
    (registered : Registered configure) (name : String) : R t (t.register configure name).2 := by
  cases known : t.ids[name]? with
  | some id =>
    rw [registerKnown known]
    exact stepwise.same t
  | none =>
    by_cases room : t.size < capacity
    · rw [registerNew known room]
      exact stepwise.append known room registered
    · rw [registerFull known room]
      exact stepwise.same t

theorem fill (names : List String) (latest : Option UInt16) (t : CommandTable) :
    R t (CommandTable.fill names latest t).2 := by
  induction names generalizing t latest with
  | nil => exact stepwise.same t
  | cons name rest ih =>
    have first : R t (t.registerUnknown name).2 := stepwise.register t .unknown name
    unfold CommandTable.fill
    split
    · rename_i id next done
      rw [done] at first
      exact stepwise.trans first (ih (some id) next)
    · rename_i problem next done
      rw [done] at first
      exact first

theorem act (action : Action) (t : CommandTable) : R t (t.act action).2 := by
  cases action with
  | block name => exact stepwise.register t .block name
  | unknown name => exact stepwise.register t .unknown name
  | fill stem count => exact stepwise.fill _ none t
  | _ => exact stepwise.same t

theorem after (t : CommandTable) (actions : List Action) : R t (t.after actions) := by
  induction actions generalizing t with
  | nil => exact stepwise.same t
  | cons action rest ih => exact stepwise.trans (stepwise.act action t) (ih (t.act action).2)

end Stepwise

theorem indexedStepwise : Stepwise fun t next => Indexed t → Indexed next where
  same _ := id
  trans first second h := second (first h)
  append {t name _} unknown room registered h := by
    have ⟨numbered, named⟩ := registered.marks { id := t.nextId, name }
    exact appendIndexed h room unknown numbered named

theorem afterIndexed (h : Indexed t) (actions : List Action) : Indexed (t.after actions) :=
  indexedStepwise.after t actions h

theorem registerNamed (h : Indexed t) (registered : Registered configure)
    (done : t.register configure name = (.ok id, next)) : next.name? id = some name := by
  cases known : t.ids[name]? with
  | some id =>
    rw [registerKnown known] at done
    cases done
    exact (h.known name id).mp known
  | none =>
    by_cases room : t.size < capacity
    · rw [registerNew known room] at done
      cases done
      have named := (registered.marks { id := t.nextId, name }).2
      exact (appendedName named _).trans (if_pos (nextNumber room))
    · rw [registerFull known room] at done
      cases done

namespace Indexed

theorem number (h : Indexed t) {i : Nat} {info : CommandInfo} (held : t.infos[i]? = some info) :
    t.info? info.id = some info := by
  unfold info?
  rw [h.numbered i info held]
  exact held

theorem only (h : Indexed t) {i j : Nat} {a b : CommandInfo} (first : t.infos[i]? = some a)
    (second : t.infos[j]? = some b) (same : a.name = b.name) : i = j := by
  have left := (h.known a.name a.id).mpr (by simp [name?, h.number first])
  have right := (h.known b.name b.id).mpr (by simp [name?, h.number second])
  rw [same, right] at left
  rw [← h.numbered i a first, ← h.numbered j b second, Option.some.inj left]

theorem distinct (h : Indexed t) : (t.infos.toList.map CommandInfo.name).Nodup := by
  rw [List.nodup_iff_getElem?_ne_getElem?]
  intro i j before inside same
  rw [List.length_map] at inside
  simp only [List.getElem?_map, Array.getElem?_toList] at same
  have held : t.infos[j]? = some t.infos[j] := Array.getElem?_eq_getElem inside
  rw [held, Option.map_some, Option.map_eq_some_iff] at same
  obtain ⟨info, first, name⟩ := same
  have := h.only first held name
  omega

theorem byName (h : Indexed t) (name : String) :
    t.infoByName? name = t.infos.find? (·.name == name) := by
  symm
  unfold infoByName?
  cases found : t.ids[name]? with
  | none =>
    rw [Option.bind_none, Array.find?_eq_none]
    intro info member
    obtain ⟨i, inside, rfl⟩ := Array.mem_iff_getElem.mp member
    intro same
    have held : t.infos[i]? = some t.infos[i] := Array.getElem?_eq_getElem inside
    have listed := (h.known name t.infos[i].id).mpr (by
      simpa [name?, h.number held] using same)
    rw [found] at listed
    cases listed
  | some id =>
    obtain ⟨info, held, named⟩ := Option.map_eq_some_iff.mp ((h.known name id).mp found)
    rw [Option.bind_some, held, Array.find?_eq_some_iff_getElem]
    obtain ⟨inside, here⟩ := Array.getElem?_eq_some_iff.mp held
    refine ⟨by simpa using named, id.toNat, inside, here, fun j before => ?_⟩
    have earlier : t.infos[j]? = some t.infos[j] :=
      Array.getElem?_eq_getElem (Nat.lt_trans before inside)
    have other : t.infos[j].name ≠ name := fun same => by
      have := h.only earlier held (same.trans named.symm)
      omega
    simpa using other

theorem inverse (h : Indexed t) (id : UInt16) (info : CommandInfo) :
    t.info? id = some info ↔ t.infoByName? info.name = some info ∧ info.id = id := by
  constructor
  · intro held
    have number : info.id = id := UInt16.toNat_inj.mp (h.numbered id.toNat info held)
    have named := (h.known info.name id).mpr (by simp [name?, held])
    exact ⟨by simp [infoByName?, named, held], number⟩
  · rintro ⟨found, rfl⟩
    obtain ⟨id, _, held⟩ := Option.bind_eq_some_iff.mp found
    exact h.number held

end Indexed

theorem lookupsInverse (actions : List Action) :
    let t := builtin.after actions
    t.size ≤ 65536 ∧
    (∀ i (info : CommandInfo), t.infos[i]? = some info → info.id.toNat = i) ∧
    (t.infos.toList.map CommandInfo.name).Nodup ∧
    (∀ name, t.infoByName? name = t.infos.find? (·.name == name)) ∧
    (∀ id info, t.info? id = some info ↔ t.infoByName? info.name = some info ∧ info.id = id) ∧
    ∀ name id next,
      t.registerBlock name = (.ok id, next) ∨ t.registerUnknown name = (.ok id, next) →
        next.name? id = some name := by
  have h := afterIndexed builtinIndexed actions
  refine ⟨h.bounded, h.numbered, h.distinct, h.byName, h.inverse, ?_⟩
  rintro name id next (done | done)
  · exact registerNamed h .block done
  · exact registerNamed h .unknown done

end DocTree.CommandTable
