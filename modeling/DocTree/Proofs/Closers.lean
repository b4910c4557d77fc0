import DocTree.Proofs.CommandTable
import Mathlib.Data.List.Pairwise

/-! Openers and closers. A verbatim block names the command that ends it, no other verbatim block
names the same one, and a look-up of the name finds a command that ends verbatim blocks. What is
registered neither opens nor closes, and can take no name away from a closer. -/
namespace DocTree.CommandTable

variable {t : CommandTable}

theorem appendedInfos (t : CommandTable) (name : String) (info : CommandInfo) :
    (t.append name info).infos.toList = t.infos.toList ++ [info] := by
  simp [append]

theorem entriesInfos (entries : List Builtin.Entry) (t : CommandTable) :
    (entries.foldl (fun t e => t.append e.name (e.info t.nextId)) t).infos.toList =
      t.infos.toList ++ (entries.zipIdx t.size).map fun (e, i) => e.info (.ofNat i) := by
  induction entries generalizing t with
  | nil => simp
  | cons e rest ih =>
    have size : (t.append e.name (e.info t.nextId)).size = t.size + 1 := Array.size_push _
    rw [List.foldl_cons, ih, appendedInfos, size, List.append_assoc]
    rfl

theorem builtinInfos :
    builtin.infos.toList = Builtin.entries.zipIdx.map fun (e, i) => e.info (.ofNat i) :=
  entriesInfos Builtin.entries empty

structure Paired (infos : List CommandInfo) : Prop where
  closed : ∀ closer ∈ infos.filterMap (·.closer?),
    ∃ e ∈ infos, e.name = closer ∧ e.isVerbatimEnd
  apart : (infos.filterMap (·.closer?)).Nodup

theorem builtinPaired : Paired builtin.infos.toList := by
  rw [builtinInfos]
  constructor
  · decide +kernel
  · decide +kernel

theorem pairedStepwise :
    Stepwise fun t next => Paired t.infos.toList → Paired next.infos.toList where
  same _ := id
  trans first second h := second (first h)
  append {t name configure} _ _ registered h := by
    have openers : (t.append name (configure { id := t.nextId, name })).infos.toList.filterMap
        (·.closer?) = t.infos.toList.filterMap (·.closer?) := by
      rw [appendedInfos, List.filterMap_append]
      cases registered <;> exact List.append_nil _
    constructor
    · rw [openers, appendedInfos]
      intro closer member
      obtain ⟨e, listed, ending⟩ := h.closed closer member
      exact ⟨e, List.mem_append_left _ listed, ending⟩
    · rw [openers]
      exact h.apart

theorem Paired.opener (h : Paired t.infos.toList) {a b : CommandInfo} {closer : String}
    (left : a ∈ t.infos.toList) (right : b ∈ t.infos.toList)
    (names : a.closer? = some closer) (same : b.closer? = some closer) : a = b := by
  have symm : Std.Symm fun a b : CommandInfo =>
      ∀ x, a.closer? = some x → ∀ y, b.closer? = some y → x ≠ y :=
    ⟨fun _ _ apart x first y second => Ne.symm (apart y second x first)⟩
  by_cases equal : a = b
  · exact equal
  · have apart := (List.pairwise_filterMap.mp h.apart).forall left right equal
    exact absurd rfl (apart closer names closer same)

theorem Indexed.nameFound (h : Indexed t) {info : CommandInfo} (member : info ∈ t.infos.toList) :
    t.infoByName? info.name = some info := by
  obtain ⟨i, held⟩ := List.mem_iff_getElem?.mp member
  rw [Array.getElem?_toList] at held
  exact ((h.inverse info.id info).mp (h.number held)).1

end DocTree.CommandTable

namespace DocTree.CommandInfo

def shapeFlags (c : CommandInfo) : List Bool :=
  [c.isInline, c.isBlock, c.isVerbatimBlock, c.isVerbatimEnd, c.isVerbatimLine, c.isUnknown]

structure Shaped (c : CommandInfo) : Prop where
  one : c.shapeFlags.count true = 1
  role : c.isBrief || c.isReturns || c.isParam || c.isTParam → c.isBlock
  opener : c.closer?.isSome = c.isVerbatimBlock

theorem shapeShaped (id : UInt16) (name : String) (numArgs : Nat) (shape : Shape) :
    (ofShape id name numArgs shape).Shaped := by
  cases shape <;> exact ⟨rfl, by simp [ofShape], rfl⟩

end DocTree.CommandInfo

namespace DocTree.CommandTable

theorem builtinShaped : ∀ c ∈ builtin.infos.toList, c.Shaped := by
  intro c member
  rw [builtinInfos] at member
  obtain ⟨⟨e, i⟩, _, rfl⟩ := List.mem_map.mp member
  exact CommandInfo.shapeShaped (.ofNat i) e.name e.numArgs e.shape

theorem shapedStepwise : Stepwise fun t next =>
    (∀ c ∈ t.infos.toList, c.Shaped) → ∀ c ∈ next.infos.toList, c.Shaped where
  same _ := id
  trans first second h := second (first h)
  append {t name configure} _ _ registered h := by
    rw [appendedInfos, List.forall_mem_append]
    refine ⟨h, List.forall_mem_singleton.mpr ?_⟩
    cases registered with
    | block => exact ⟨rfl, fun _ => rfl, rfl⟩
    | unknown => exact ⟨rfl, fun role => role, rfl⟩

structure Closed (t : CommandTable) : Prop where
  shapes : ∀ c ∈ t.infos.toList, c.shapeFlags.count true = 1
  roles : ∀ c ∈ t.infos.toList,
    c.isBrief || c.isReturns || c.isParam || c.isTParam → c.isBlock
  openers : ∀ c ∈ t.infos.toList, c.closer?.isSome = c.isVerbatimBlock
  closers : ∀ c ∈ t.infos.toList, ∀ closer, c.closer? = some closer →
    ∃ e, t.infoByName? closer = some e ∧ e.name = closer ∧ e.isVerbatimEnd
  apart : ∀ a ∈ t.infos.toList, ∀ b ∈ t.infos.toList, ∀ closer,
    a.closer? = some closer → b.closer? = some closer → a = b

theorem openersClosed (actions : List Action) : Closed (builtin.after actions) := by
  have indexed := afterIndexed builtinIndexed actions
  have paired := pairedStepwise.after builtin actions builtinPaired
  have shaped := shapedStepwise.after builtin actions builtinShaped
  refine ⟨fun c member => (shaped c member).one, fun c member => (shaped c member).role,
    fun c member => (shaped c member).opener, ?_,
    fun a left b right closer => paired.opener left right⟩
  intro c member closer names
  obtain ⟨e, listed, name, ending⟩ :=
    paired.closed closer (List.mem_filterMap.mpr ⟨c, member, names⟩)
  refine ⟨e, ?_, name, ending⟩
  rw [← name]
  exact indexed.nameFound listed

end DocTree.CommandTable
