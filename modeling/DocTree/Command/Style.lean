/-! How an inline command's argument is rendered. -/
namespace DocTree

inductive RenderStyle where
  | normal
  | bold
  | monospaced
  | emphasized
  deriving DecidableEq, Repr

namespace RenderStyle

def code : RenderStyle → UInt32
  | .normal => 0
  | .bold => 1
  | .monospaced => 2
  | .emphasized => 3

def ofCode (code : UInt32) : RenderStyle :=
  if code = 1 then .bold
  else if code = 2 then .monospaced
  else if code = 3 then .emphasized
  else .normal

def name : RenderStyle → String
  | .normal => "normal"
  | .bold => "bold"
  | .monospaced => "monospaced"
  | .emphasized => "emphasized"

def all : List RenderStyle := [.normal, .bold, .monospaced, .emphasized]

def ofName? (name : String) : Option RenderStyle := all.find? (·.name == name)

def ofCommand (command : String) : RenderStyle :=
  if command = "b" then .bold
  else if command ∈ ["c", "p"] then .monospaced
  else if command ∈ ["a", "e", "em"] then .emphasized
  else .normal

theorem ofCode_code (s : RenderStyle) : ofCode s.code = s := by cases s <;> rfl

end RenderStyle
end DocTree
