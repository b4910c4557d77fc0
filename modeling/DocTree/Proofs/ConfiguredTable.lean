import DocTree.Options
import DocTree.Proofs.Closers
import DocTree.Proofs.TableGrowth

/-! Tables with commands from options. Names that are known or repeated add nothing, so what
comes of a list of names comes of its new names, each one put behind the built-in commands until
one finds no room. -/
namespace DocTree.CommandTable

variable {t next : CommandTable} {name : String} {given known : List String}

def newNames (known given : List String) : List String := (given.filter (· ∉ known)).eraseDups

theorem newKnown (old : name ∈ known) : newNames known (name :: given) = newNames known given := by
  simp [newNames, old]

theorem newFirst (fresh : name ∉ known) :
    newNames known (name :: given) = name :: newNames (known ++ [name]) given := by
  have others : (fun other => !other == name && decide (other ∉ known)) =
      fun other => decide (other ∉ known ++ [name]) := by
    funext other
    by_cases same : other = name <;> simp [same]
  unfold newNames
  rw [List.filter_cons_of_pos (by simpa using fresh), List.eraseDups_cons, List.filter_filter,
    others]

def names (t : CommandTable) : List String := t.infos.toList.map CommandInfo.name

def addBlock (t : CommandTable) (name : String) : CommandTable :=
  t.append name { id := t.nextId, name, isBlock := true }

theorem addBlockNames (t : CommandTable) (name : String) :
    (t.addBlock name).names = t.names ++ [name] := by
  simp [names, addBlock, append]

theorem addBlockSize (t : CommandTable) (name : String) : (t.addBlock name).size = t.size + 1 :=
  Array.size_push _

theorem Indexed.unlisted (h : Indexed t) (name : String) :
    t.ids[name]? = none ↔ name ∉ t.names := by
  rw [← h.unknownName, h.byName, Array.find?_eq_none]
  simp [names]

def appendBlocks : List String → CommandTable → Except TableFull CommandTable
  | [], t => .ok t
  | name :: rest, t =>
    if t.size < capacity then appendBlocks rest (t.addBlock name)
    else .error ⟨name, capacity⟩

theorem blocksAppended (h : Indexed t) (given : List String) :
    registerBlocks given t = appendBlocks (newNames t.names given) t := by
  induction given generalizing t with
  | nil => rfl
  | cons name rest ih =>
    unfold registerBlocks registerBlock
    cases listed : t.ids[name]? with
    | some id =>
      have old : name ∈ t.names := by
        by_contra fresh
        rw [(h.unlisted name).mpr fresh] at listed
        cases listed
      rw [registerKnown listed, newKnown old]
      exact ih h
    | none =>
      rw [newFirst ((h.unlisted name).mp listed)]
      unfold appendBlocks
      by_cases room : t.size < capacity
      · have indexed : Indexed (t.addBlock name) := appendIndexed h room listed rfl rfl
        rw [registerNew listed room, if_pos room, ← addBlockNames t name]
        exact ih indexed
      · rw [registerFull listed room, if_neg room]

theorem Stepwise.blocks {R : CommandTable → CommandTable → Prop} (stepwise : Stepwise R)
    (done : registerBlocks given t = .ok next) : R t next := by
  induction given generalizing t with
  | nil =>
    cases done
    exact stepwise.same _
  | cons name rest ih =>
    have first : R t (t.registerBlock name).2 := stepwise.register t .block name
    unfold registerBlocks at done
    split at done
    · rename_i id later registered
      rw [registered] at first
      exact stepwise.trans first (ih done)
    · cases done

def blocksFrom (first : Nat) (added : List String) : List CommandInfo :=
  (added.zipIdx first).map fun (name, number) => { id := .ofNat number, name, isBlock := true }

theorem appendFits {added : List String} (room : t.size + added.length ≤ capacity) :
    ∃ next, appendBlocks added t = .ok next ∧
      next.infos.toList = t.infos.toList ++ blocksFrom t.size added := by
  induction added generalizing t with
  | nil => exact ⟨t, rfl, by simp [blocksFrom]⟩
  | cons name rest ih =>
    rw [List.length_cons] at room
    have size := addBlockSize t name
    obtain ⟨next, done, entries⟩ := ih (t := t.addBlock name) (by omega)
    refine ⟨next, ?_, ?_⟩
    · unfold appendBlocks
      rw [if_pos (by omega), done]
    · rw [entries, size]
      simp [blocksFrom, addBlock, nextId, append, CommandTable.size]

theorem appendOverflows {added : List String} (bounded : t.size ≤ capacity)
    (beyond : capacity < t.size + added.length) :
    ∃ name, added[capacity - t.size]? = some name ∧
      appendBlocks added t = .error ⟨name, capacity⟩ := by
  induction added generalizing t with
  | nil => simp at beyond; omega
  | cons name rest ih =>
    rw [List.length_cons] at beyond
    unfold appendBlocks
    by_cases room : t.size < capacity
    · have size := addBlockSize t name
      obtain ⟨last, place, refused⟩ := ih (t := t.addBlock name) (by omega) (by omega)
      have index : capacity - t.size = capacity - (t.size + 1) + 1 := by omega
      rw [size] at place
      exact ⟨last, by rw [index, List.getElem?_cons_succ, place], by rw [if_pos room, refused]⟩
    · have none : capacity - t.size = 0 := by omega
      exact ⟨name, by rw [none]; rfl, if_neg room⟩

theorem fullMessage (name : String) : TableFull.message ⟨name, 65536⟩ =
    s!"cannot register '{name}': command table is full (65536 commands)" := by
  have ending : "': command table is full (" ++ (toString 65536 ++ " commands)") =
      "': command table is full (65536 commands)" := by decide
  show "cannot register '" ++ name ++ "': command table is full (" ++ toString 65536 ++
    " commands)" = "cannot register '" ++ name ++ "': command table is full (65536 commands)"
  rw [← ending, ← String.append_assoc, ← String.append_assoc]

theorem builtinNames : builtin.names = Builtin.entries.map (·.name) := by
  have named : ((·.name) : CommandInfo → String) ∘ (fun e : Builtin.Entry × Nat =>
      e.1.info (.ofNat e.2)) = (·.name) ∘ Prod.fst :=
    funext fun e => (entryMarks e.1 (.ofNat e.2)).2
  unfold names
  rw [builtinInfos, List.map_map, named, ← List.map_map, List.zipIdx_map_fst]

end DocTree.CommandTable

namespace DocTree.Options
open CommandTable

def addedNames (o : Options) : List String :=
  newNames (Builtin.entries.map (·.name)) o.blockCommands

theorem namesAdded (o : Options) :
    if builtin.size + o.addedNames.length ≤ 65536 then
      ∃ t, o.commandTable = .ok t ∧ Indexed t ∧
        t.infos.toList = builtin.infos.toList ++ blocksFrom builtin.size o.addedNames
    else
      ∃ name, o.addedNames[65536 - builtin.size]? = some name ∧
        o.commandTable = .error (.table ⟨name, 65536⟩) ∧
        (OptionsError.table ⟨name, 65536⟩).message =
          s!"cannot register '{name}': command table is full (65536 commands)" := by
  have appended : builtin.registerBlocks o.blockCommands = appendBlocks o.addedNames builtin := by
    rw [blocksAppended builtinIndexed, builtinNames, addedNames]
  split
  · rename_i room
    obtain ⟨t, done, entries⟩ := appendFits room
    rw [done] at appended
    exact ⟨t, by simp [commandTable, appended],
      indexedStepwise.blocks appended builtinIndexed, entries⟩
  · rename_i beyond
    obtain ⟨name, place, refused⟩ :=
      appendOverflows builtinIndexed.bounded (Nat.lt_of_not_le beyond)
    rw [refused] at appended
    exact ⟨name, place, by simp [commandTable, appended, capacity], fullMessage name⟩

example : (Options.mk ["x", "brief", "", "x", "é", ""] false).addedNames = ["x", "", "é"] := by
  decide

end DocTree.Options
