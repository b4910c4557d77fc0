/-! Which way a documented parameter passes its value. -/
namespace DocTree

inductive Direction where
  | input
  | output
  | both
  deriving DecidableEq, Repr

namespace Direction

def code : Direction → UInt32
  | .input => 0
  | .output => 1
  | .both => 2

def ofCode (code : UInt32) : Direction :=
  if code = 1 then .output else if code = 2 then .both else .input

def display : Direction → String
  | .input => "[in]"
  | .output => "[out]"
  | .both => "[in,out]"

theorem ofCode_code (d : Direction) : ofCode d.code = d := by cases d <;> rfl

end Direction
end DocTree
