import DocTree.Node.Placed
import DocTree.Node.Session

/-! Descriptions of nodes, and building what they describe: content first, then the
node, then the actions on it, in order. -/
namespace DocTree

inductive CommandRef where
  | id (id : UInt16)
  | name (name : String)
  deriving DecidableEq, Repr

def CommandRef.resolve (t : CommandTable) : CommandRef → Run UInt16
  | .id number => .ok number
  | .name spelling => Placed.commandId t spelling

inductive Seed where
  | text (start stop : Location) (text : String)
  | inlineCommand (start stop : Location) (command : CommandRef) (style : RenderStyle)
      (args : List Argument)
  | startTag (start : Location) (name : String)
  | endTag (start stop : Location) (name : String)
  | block (start stop : Location) (command : CommandRef)
  | param (start stop : Location) (command : CommandRef)
  | tparam (start stop : Location) (command : CommandRef)
  | verbatimBlock (start stop : Location) (command : CommandRef)
  | verbatimLine (start stop : Location) (command : CommandRef) (textStart : Location)
      (text : String)
  | verbatimBlockLine (start : Location) (text : String)
  | placedText (start : UInt32) (text : String)
  | placedParagraph (start : UInt32) (text : String)
  | placedBlock (start : UInt32) (name : String)
  | placedParam (start : UInt32) (name : String)
  | placedTParam (start : UInt32) (name : String)
  deriving DecidableEq, Repr

def Seed.build (m : Mode) (t : CommandTable) : Seed → Run Comment
  | .text start stop content => .ok (.text (.make start stop content))
  | .inlineCommand start stop command style args => do
    return .inlineCommand (.make start stop (← command.resolve t) style args)
  | .startTag start name => .ok (.startTag (.make start name))
  | .endTag start stop name => .ok (.endTag (.make start stop name))
  | .block start stop command => do return .block start stop (← command.resolve t)
  | .param start stop command => do return .param start stop (← command.resolve t)
  | .tparam start stop command => do return .tparam start stop (← command.resolve t)
  | .verbatimBlock start stop command => do
    return .verbatimBlock start stop (← command.resolve t)
  | .verbatimLine start stop command textStart content => do
    return .verbatimLine start stop (← command.resolve t) textStart content
  | .verbatimBlockLine start content => .ok (.verbatimBlockLine (.make start content))
  | .placedText start content => Placed.text m start content
  | .placedParagraph start content => Placed.paragraph m start content
  | .placedBlock start name => Placed.block m t start name
  | .placedParam start name => Placed.param m t start name
  | .placedTParam start name => Placed.tparam m t start name

mutual

inductive Draft where
  | seed (seed : Seed) (actions : List Action)
  | paragraph (content : List Draft) (actions : List Action)
  deriving Repr

inductive Action where
  | step (step : Comment.Step)
  | setParagraph (paragraph : Draft)
  deriving Repr

end

def Comment.attach (c : Comment) : Comment → Comment.Answer × Comment
  | .paragraph p => c.changed (c.modifyBase? (·.setParagraph p))
  | _ => (.refused, c)

mutual

def Draft.build (m : Mode) (t : CommandTable) : Draft → Run Comment
  | .seed seed actions => do
    let c ← seed.build m t
    Action.actAll m t actions c
  | .paragraph content actions => do
    let content ← Draft.buildAll m t content
    let p ← Paragraph.build m content
    Action.actAll m t actions (.paragraph p)
termination_by structural d => d

def Draft.buildAll (m : Mode) (t : CommandTable) : List Draft → Run (List Comment)
  | [] => .ok []
  | d :: rest => do
    let c ← Draft.build m t d
    return c :: (← Draft.buildAll m t rest)
termination_by structural ds => ds

def Action.act (m : Mode) (t : CommandTable) : Action → Comment → Run (Comment.Answer × Comment)
  | .step step, c => c.perform t step
  | .setParagraph paragraph, c => do return c.attach (← Draft.build m t paragraph)
termination_by structural a => a

def Action.actAll (m : Mode) (t : CommandTable) : List Action → Comment → Run Comment
  | [], c => .ok c
  | a :: rest, c => do
    let (_, c) ← Action.act m t a c
    Action.actAll m t rest c
termination_by structural as => as

end

namespace Comment

def step (m : Mode) (t : CommandTable) (c : Comment) (action : Action) :
    Except Fault Answer × Comment :=
  match action.act m t c with
  | .ok (answer, next) => (.ok answer, next)
  | .error fault => (.error fault, c)

def run (m : Mode) (t : CommandTable) (c : Comment) :
    List Action → List (Except Fault Answer × Comment)
  | [] => []
  | action :: rest =>
    let next := c.step m t action
    next :: run m t next.2 rest

end Comment
end DocTree
