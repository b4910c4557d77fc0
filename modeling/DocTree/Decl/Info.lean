import DocTree.Decl.Summary

/-! A declaration and what is remembered of it. A declaration may answer differently
each time it is asked; its first answer is kept, and it is never asked again. -/
namespace DocTree

structure Decl where
  name : String
  /-- The summary it gives when asked for the nth time, counted from zero. -/
  introspect : Nat → Summary

namespace Decl

def constant (name : String) (summary : Summary) : Decl := ⟨name, fun _ => summary⟩

def ofAnswers (name : String) (answers : List Summary) : Decl :=
  ⟨name, fun n => (answers[n]?.or answers.getLast?).getD .plain⟩

end Decl

structure DeclInfo where
  decl : Decl
  filled : Option Summary
  asked : Nat

namespace DeclInfo

def ofDecl (d : Decl) : DeclInfo := ⟨d, none, 0⟩

def isFilled (i : DeclInfo) : Bool := i.filled.isSome

def fill (i : DeclInfo) : Summary × DeclInfo :=
  match i.filled with
  | some summary => (summary, i)
  | none =>
    let summary := i.decl.introspect i.asked
    (summary, ⟨i.decl, some summary, i.asked + 1⟩)

theorem fill_fill (i : DeclInfo) : i.fill.2.fill = i.fill := by
  unfold fill
  cases h : i.filled <;> simp [h]

end DeclInfo
end DocTree
