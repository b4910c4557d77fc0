import DocTree.Proofs.Lines

/-! Offsets and positions in the same order. Of two offsets the later one never stands on an
earlier line, and on one line the columns are as far apart as the offsets. A line starts at one
place, so a position leads back to its offset. -/
namespace DocTree

namespace Position

instance : Std.OrientedOrd Position :=
  inferInstanceAs (Std.OrientedCmp (compareLex (compareOn line) (compareOn column)))

theorem compareFields (p q : Position) :
    compare p q = (compare p.line q.line).then (compare p.column q.column) := rfl

theorem compareLine {p q : Position} (less : p.line < q.line) : compare p q = .lt := by
  rw [compareFields, Nat.compare_eq_lt.mpr less, Ordering.lt_then]

theorem compareColumn {p q : Position} (same : p.line = q.line) (less : p.column < q.column) :
    compare p q = .lt := by
  rw [compareFields, Nat.compare_eq_eq.mpr same, Ordering.eq_then, Nat.compare_eq_lt.mpr less]

end Position

namespace LineTable

variable {t : LineTable} {a b : Nat}

theorem reachesLater {starts : List Nat} {line start other next : Nat} (less : a < b)
    (left : Reaches starts a line start) (right : Reaches starts b other next) :
    line < other ∨ line = other ∧ start = next := by
  have reached := left.reached
  rcases Nat.lt_trichotomy line other with before | rfl | after
  · exact .inl before
  · exact .inr ⟨rfl, Option.some.inj (left.entry.symm.trans right.entry)⟩
  · -- the line of the later offset would have ended before the earlier one
    have := right.last line start after left.entry
    omega

theorem positionLess (increasing : t.later.Pairwise (· < ·)) (less : a < b) :
    compare (t.positionOf a) (t.positionOf b) = .lt := by
  obtain ⟨line, start, first, left⟩ := positionReaches increasing a
  obtain ⟨other, next, second, right⟩ := positionReaches increasing b
  rw [first, second]
  rcases reachesLater less left right with before | ⟨rfl, rfl⟩
  · exact Position.compareLine before
  · exact Position.compareColumn rfl (Nat.sub_lt_sub_right left.reached less)

theorem positionCompare (increasing : t.later.Pairwise (· < ·)) (a b : Nat) :
    compare (t.positionOf a) (t.positionOf b) = compare a b := by
  rcases Nat.lt_trichotomy a b with less | rfl | more
  · rw [positionLess increasing less, Nat.compare_eq_lt.mpr less]
  · rw [Std.ReflOrd.compare_self, Std.ReflOrd.compare_self]
  · rw [Std.OrientedOrd.eq_swap, positionLess increasing more, Nat.compare_eq_gt.mpr more]
    rfl

def offsetAt? (t : LineTable) (p : Position) : Option Nat :=
  t.starts[p.line]?.map (· + p.column)

theorem offsetRecovered (increasing : t.later.Pairwise (· < ·)) (byte : Nat) :
    t.offsetAt? (t.positionOf byte) = some byte := by
  obtain ⟨line, start, position, reaches⟩ := positionReaches increasing byte
  rw [position, offsetAt?, reaches.entry, Option.map_some, Nat.add_sub_cancel' reaches.reached]

structure Ordered (t : LineTable) : Prop where
  located (byte : Nat) : t.locate byte = some (t.positionOf byte)
  compared (a b : Nat) : compare (t.positionOf a) (t.positionOf b) = compare a b
  recovered (byte : Nat) : t.offsetAt? (t.positionOf byte) = some byte
  distinct (a b : Nat) : t.positionOf a = t.positionOf b → a = b
  sorted {α : Type} (offset : α → Nat) (entries : List α) :
    entries.mergeSort (fun x y =>
        (compare (t.positionOf (offset x)) (t.positionOf (offset y))).isLE) =
      entries.mergeSort fun x y => (compare (offset x) (offset y)).isLE

theorem positionsOrdered (source : String) : Ordered (ofSource source) := by
  have increasing : (ofSource source).starts.Pairwise (· < ·) := startsIncreasing source
  have order := positionCompare increasing.of_cons
  have recovered := offsetRecovered increasing.of_cons
  refine ⟨locatePosition increasing, order, recovered, fun a b same => ?_, fun offset entries => ?_⟩
  · have offsets := congrArg (ofSource source).offsetAt? same
    rw [recovered, recovered] at offsets
    exact Option.some.inj offsets
  · simp only [order]

end LineTable
end DocTree
