import DocTree.Proofs.Violations
import Mathlib.Data.List.Induction
import Mathlib.Data.List.Infix

/-! Nodes inside their ancestors. The check of a tree compares the span of a node with that of
its parent alone. As long as all spans on the way to a node are set, each node on the way holds
the next one, and so all that comes after it. -/
namespace DocTree

def Span.Spans (outer inner : Span) : Prop := outer.Within inner.start ∧ outer.Within inner.stop

namespace Span

variable {outer middle inner : Span} {loc : Location}

theorem withinThrough (first : outer.Spans middle) (second : middle.Within loc) :
    outer.Within loc :=
  ⟨Nat.le_trans first.1.1 second.1, Nat.le_trans second.2 first.2.2⟩

theorem spansThrough (first : outer.Spans middle) (second : middle.Spans inner) :
    outer.Spans inner :=
  ⟨withinThrough first second.1, withinThrough first second.2⟩

end Span

def Spanned (headers : List Nat → Option Header) (path : List Nat) : Prop :=
  ∀ before, before <+: path → ∃ h, headers before = some h ∧ h.span.isValid = true

instance (headers : List Nat → Option Header) (path : List Nat) :
    Decidable (Spanned headers path) :=
  decidable_of_iff (∀ before ∈ path.inits, (headers before).any (·.span.isValid) = true) (by
    simp [Spanned, Option.any_eq_true])

namespace FullComment

variable {f : FullComment} {path before : List Nat} {h outer inner : Header}

theorem Orderly.own (orderly : f.Orderly) (here : f.headerAt? path = some h)
    (valid : h.span.isValid = true) : h.span.Spans h.span := by
  have forward : h.span.start ≤ h.span.stop := orderly.forward path h here valid
  exact ⟨⟨Nat.le_refl _, forward⟩, ⟨forward, Nat.le_refl _⟩⟩

theorem Orderly.way (orderly : f.Orderly) {rest : List Nat}
    (spanned : Spanned f.headerAt? (before ++ rest)) (above : f.headerAt? before = some outer)
    (here : f.headerAt? (before ++ rest) = some inner) : outer.span.Spans inner.span := by
  -- from the last step backwards: the node above the last one is held already
  induction rest using List.reverseRecOn generalizing inner with
  | nil =>
    rw [List.append_nil] at spanned here
    obtain ⟨own, held, valid⟩ := spanned before List.prefix_rfl
    cases held.symm.trans above
    cases held.symm.trans here
    exact orderly.own held valid
  | append_singleton rest i ih =>
    rw [← List.append_assoc] at spanned here
    have shorter : before ++ rest <+: before ++ rest ++ [i] := List.prefix_append _ [i]
    obtain ⟨middle, held, valid⟩ := spanned (before ++ rest) shorter
    obtain ⟨last, there, placed⟩ := spanned (before ++ rest ++ [i]) List.prefix_rfl
    cases there.symm.trans here
    have whole := ih (fun place first => spanned place (first.trans shorter)) held
    exact Span.spansThrough whole (orderly.enclosed _ i _ _ held here valid placed)

theorem ancestorsEnclose (quiet : f.violations = []) (spanned : Spanned f.headerAt? path) :
    ∀ before outer inner, before <+: path → f.headerAt? before = some outer →
      f.headerAt? path = some inner →
        outer.span.Within inner.span.start ∧ outer.span.Within inner.span.stop ∧
        (inner.location.isValid = true → outer.span.Within inner.location) := by
  have orderly := f.quietOrderly.mp quiet
  rintro before outer inner ⟨rest, rfl⟩ above here
  have whole := orderly.way spanned above here
  refine ⟨whole.1, whole.2, fun located => ?_⟩
  obtain ⟨own, held, valid⟩ := spanned (before ++ rest) List.prefix_rfl
  cases held.symm.trans here
  exact Span.withinThrough whole (orderly.located _ inner here valid located)

def layered : FullComment :=
  let texts := [Comment.text (.make (.valid 9) (.valid 12) "one"),
    .text (.make (.valid 13) (.valid 16) "two")]
  let base := (BlockCommand.ofKind .paramCommand (.valid 2) (.valid 8) 11).setParagraph
    (.ofContent texts)
  ofBlocks [.command (.param none) base, .block (.valid 20) (.valid 25) 6]
    (.ofDecl (.constant "f" .plain))

theorem layeredEnclosed : layered.violations = [] ∧ Spanned layered.headerAt? [0, 0, 1] ∧
    ∃ outer inner, layered.headerAt? [] = some outer ∧ layered.headerAt? [0, 0, 1] = some inner ∧
      outer.span = ⟨.valid 2, .valid 25⟩ ∧ inner.span = ⟨.valid 13, .valid 16⟩ ∧
      outer.span.Within inner.span.start ∧ outer.span.Within inner.span.stop ∧
      outer.span.Within inner.location := by
  have quiet : layered.violations = [] := by decide
  have spanned : Spanned layered.headerAt? [0, 0, 1] := by decide
  have held := ancestorsEnclose quiet spanned [] _ _ List.nil_prefix rfl rfl
  exact ⟨quiet, spanned, _, _, rfl, rfl, rfl, rfl, held.1, held.2.1, held.2.2 rfl⟩

end FullComment
end DocTree
