import Mathlib.Data.List.Nodup

/-! Entries placed at nodes of a tree by paths of child indices. What is placed in the children
of a node is placed in the node itself once each path starts with the child's index: no entry
is lost or met twice, and the entries of one child stand together. -/
namespace DocTree

theorem flatMapInfix {α β : Type} {f : α → List β} {xs : List α} {x : α} (member : x ∈ xs) :
    f x <:+: xs.flatMap f := by
  obtain ⟨before, after, rfl⟩ := List.append_of_mem member
  rw [List.flatMap_append, List.flatMap_cons, ← List.append_assoc]
  exact ⟨_, _, rfl⟩

section

variable {α : Type}

def inChild (i : Nat) (inner : List (List Nat × α)) : List (List Nat × α) :=
  inner.map fun (path, a) => (i :: path, a)

def inChildren (children : List (List (List Nat × α))) : List (List Nat × α) :=
  children.zipIdx.flatMap fun (inner, i) => inChild i inner

variable {children : List (List (List Nat × α))} {path : List Nat} {a : α} {i : Nat}

theorem inChildrenRoot : ([], a) ∉ inChildren children := by
  simp [inChildren, inChild]

theorem inChildrenAt :
    (i :: path, a) ∈ inChildren children ↔
      ∃ inner, children[i]? = some inner ∧ (path, a) ∈ inner := by
  unfold inChildren inChild
  rw [List.mem_flatMap]
  constructor
  · rintro ⟨⟨inner, j⟩, listed, member⟩
    obtain ⟨⟨rest, b⟩, inside, same⟩ := List.mem_map.mp member
    cases same
    exact ⟨inner, List.mem_zipIdx_iff_getElem?.mp listed, inside⟩
  · rintro ⟨inner, held, member⟩
    exact ⟨(inner, i), List.mem_zipIdx_iff_getElem?.mpr held, List.mem_map_of_mem member⟩

theorem inChildEntries (i : Nat) (inner : List (List Nat × α)) :
    (inChild i inner).map Prod.snd = inner.map Prod.snd := by
  simp [inChild, Function.comp_def]

theorem inChildrenEntries :
    (inChildren children).map Prod.snd = children.flatMap (·.map Prod.snd) := by
  have entries (k : Nat) : ((children.zipIdx k).flatMap fun (inner, i) => inChild i inner).map
      Prod.snd = children.flatMap (·.map Prod.snd) := by
    induction children generalizing k with
    | nil => rfl
    | cons inner rest ih =>
      rw [List.zipIdx_cons, List.flatMap_cons, List.flatMap_cons, List.map_append, ih (k + 1),
        inChildEntries]
  exact entries 0

theorem inChildrenDistinct (each : ∀ inner ∈ children, inner.Nodup) :
    (inChildren children).Nodup := by
  have inner (i : Nat) (l : List (List Nat × α)) (distinct : l.Nodup) : (inChild i l).Nodup := by
    refine distinct.map fun a b same => ?_
    simpa [Prod.ext_iff] using same
  have all (k : Nat) : ((children.zipIdx k).flatMap fun (inner, i) => inChild i inner).Nodup := by
    induction children generalizing k with
    | nil => exact .nil
    | cons l rest ih =>
      rw [List.forall_mem_cons] at each
      rw [List.zipIdx_cons, List.flatMap_cons, List.nodup_append]
      refine ⟨inner k l each.1, ih each.2 (k + 1), ?_⟩
      rintro _ left _ right rfl
      obtain ⟨_, _, rfl⟩ := List.mem_map.mp left
      obtain ⟨⟨_, j⟩, listed, later⟩ := List.mem_flatMap.mp right
      obtain ⟨_, _, same⟩ := List.mem_map.mp later
      have := List.le_snd_of_mem_zipIdx listed
      simp only [Prod.mk.injEq, List.cons.injEq] at same
      omega
  exact all 0

theorem inChildrenTogether {inner : List (List Nat × α)} (held : children[i]? = some inner) :
    inChild i inner <:+: inChildren children := by
  have listed : (inner, i) ∈ children.zipIdx := List.mem_zipIdx_iff_getElem?.mpr held
  exact flatMapInfix (f := fun placed => inChild placed.2 placed.1) listed

end

end DocTree
