import DocTree.Node.Block
import DocTree.Proofs.CommandTable

/-! Tables that grow. The registration of a new name puts one command behind all others, and any
other registration leaves the table as it is. So what a table answers once it answers ever after,
and the number that a node has stored keeps its name. -/
namespace DocTree.CommandTable

variable {t next : CommandTable} {name : String} {id : UInt16} {info : CommandInfo}

structure Grows (t next : CommandTable) : Prop where
  kept : t.infos.toList <+: next.infos.toList
  known : ∀ (name : String) (id : UInt16), t.ids[name]? = some id → next.ids[name]? = some id

theorem growsStepwise : Stepwise Grows where
  same t := ⟨List.prefix_refl _, fun _ _ found => found⟩
  trans first second :=
    ⟨first.kept.trans second.kept,
      fun name id found => second.known name id (first.known name id found)⟩
  append {t name _} unknown room _ := by
    refine ⟨by simp [append], fun other id found => ?_⟩
    have different : name ≠ other := by
      rintro rfl
      rw [unknown] at found
      cases found
    rw [appendedId]
    simpa [different] using found

namespace Grows

variable (grows : Grows t next)
include grows

theorem infoKept (found : t.info? id = some info) : next.info? id = some info := by
  unfold info? at found ⊢
  rw [← Array.getElem?_toList] at found ⊢
  obtain ⟨inside, rfl⟩ := List.getElem?_eq_some_iff.mp found
  exact List.prefix_iff_getElem?.mp grows.kept id.toNat inside

theorem infoByNameKept (found : t.infoByName? name = some info) :
    next.infoByName? name = some info := by
  obtain ⟨id, listed, held⟩ := Option.bind_eq_some_iff.mp found
  exact Option.bind_eq_some_iff.mpr ⟨id, grows.known name id listed, grows.infoKept held⟩

theorem nameKept (found : t.name? id = some name) : next.name? id = some name := by
  obtain ⟨info, held, named⟩ := Option.map_eq_some_iff.mp found
  exact Option.map_eq_some_iff.mpr ⟨info, grows.infoKept held, named⟩

end Grows

theorem Indexed.unknownName (h : Indexed t) (name : String) :
    t.infoByName? name = none ↔ t.ids[name]? = none := by
  unfold infoByName?
  cases listed : t.ids[name]? with
  | none => simp
  | some id =>
    obtain ⟨info, held, _⟩ := Option.map_eq_some_iff.mp ((h.known name id).mp listed)
    simp [held]

theorem Indexed.knownName (h : Indexed t) (found : t.infoByName? name = some info) :
    t.ids[name]? = some info.id := by
  obtain ⟨id, listed, held⟩ := Option.bind_eq_some_iff.mp found
  have number : info.id = id := UInt16.toNat_inj.mp (h.numbered id.toNat info held)
  rwa [number]

theorem Indexed.refused (h : Indexed t) (configure : CommandInfo → CommandInfo) (name : String) :
    ((∃ problem, (t.register configure name).1 = .error problem) ↔
      t.infoByName? name = none ∧ t.size = 65536) ∧
    ∀ problem next, t.register configure name = (.error problem, next) →
      problem = ⟨name, 65536⟩ ∧ next = t := by
  rw [h.unknownName]
  cases known : t.ids[name]? with
  | some id => simp [registerKnown known]
  | none =>
    have bounded := h.bounded
    by_cases room : t.size < capacity
    · rw [registerNew known room]
      have below : t.size ≠ 65536 := Nat.ne_of_lt room
      simp [below]
    · rw [registerFull known room]
      have full : t.size = 65536 := Nat.le_antisymm bounded (Nat.le_of_not_lt room)
      simp [full, capacity, eq_comm]

theorem registersAppend (actions more : List Action) :
    let t := builtin.after actions
    let later := t.after more
    t.infos.toList <+: later.infos.toList ∧
    (∀ id info, t.info? id = some info → later.info? id = some info) ∧
    (∀ name info, t.infoByName? name = some info → later.infoByName? name = some info) ∧
    (∀ (b : BlockCommand Comment) name, b.name? t = some name → b.name? later = some name) ∧
    (∀ (c : InlineCommand) name, c.name? t = some name → c.name? later = some name) ∧
    ∀ configure name,
      (∀ info, t.infoByName? name = some info → t.register configure name = (.ok info.id, t)) ∧
      (t.infoByName? name = none → t.size < 65536 → ∃ next,
        t.register configure name = (.ok (UInt16.ofNat t.size), next) ∧
        next.infos = t.infos.push (configure { id := UInt16.ofNat t.size, name })) ∧
      ((∃ problem, (t.register configure name).1 = .error problem) ↔
        t.infoByName? name = none ∧ t.size = 65536) ∧
      ∀ problem next, t.register configure name = (.error problem, next) →
        problem = ⟨name, 65536⟩ ∧ next = t := by
  intro t later
  have h : Indexed t := afterIndexed builtinIndexed actions
  have grows : Grows t later := growsStepwise.after t more
  refine ⟨grows.kept, fun _ _ => grows.infoKept, fun _ _ => grows.infoByNameKept,
    fun _ _ => grows.nameKept, fun _ _ => grows.nameKept,
    fun configure name => ⟨?_, ?_, h.refused configure name⟩⟩
  · intro info found
    exact registerKnown (h.knownName found) configure
  · intro unknown room
    exact ⟨_, registerNew ((h.unknownName name).mp unknown) room configure, rfl⟩

end DocTree.CommandTable
