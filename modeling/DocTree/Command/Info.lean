/-! What is known about a command: its id, its name and its properties. A built-in command has a
shape that sets them; a registered one is a plain block command or marked as unknown. -/
namespace DocTree

inductive Shape where
  | inline
  | block
  | brief
  | returns
  | param
  | tparam
  | verbatimBlock (closer : String)
  | verbatimEnd
  | verbatimLine
  deriving DecidableEq, Repr

structure CommandInfo where
  id : UInt16
  name : String
  closer? : Option String := none
  numArgs : Nat := 0
  isInline : Bool := false
  isBlock : Bool := false
  isBrief : Bool := false
  isReturns : Bool := false
  isParam : Bool := false
  isTParam : Bool := false
  isVerbatimBlock : Bool := false
  isVerbatimEnd : Bool := false
  isVerbatimLine : Bool := false
  isUnknown : Bool := false
  deriving DecidableEq, Repr

namespace CommandInfo

def ofShape (id : UInt16) (name : String) (numArgs : Nat) (shape : Shape) : CommandInfo :=
  let info : CommandInfo := { id, name, numArgs }
  match shape with
  | .inline => { info with isInline := true }
  | .block => { info with isBlock := true }
  | .brief => { info with isBlock := true, isBrief := true }
  | .returns => { info with isBlock := true, isReturns := true }
  | .param => { info with isBlock := true, isParam := true }
  | .tparam => { info with isBlock := true, isTParam := true }
  | .verbatimBlock closer => { info with isVerbatimBlock := true, closer? := some closer }
  | .verbatimEnd => { info with isVerbatimEnd := true }
  | .verbatimLine => { info with isVerbatimLine := true }

def asBlock (info : CommandInfo) : CommandInfo := { info with isBlock := true }

def asUnknown (info : CommandInfo) : CommandInfo := { info with isUnknown := true }

end CommandInfo
end DocTree
