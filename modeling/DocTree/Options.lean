import DocTree.Command.Session
import DocTree.Yaml.Node
import DocTree.Yaml.Style

/-! Options, as a YAML document: a mapping with the keys `block_command_names` and
`parse_all_comments`. What a document leaves out keeps its default, and keys that mean
nothing here are skipped. -/
namespace DocTree

structure Options where
  blockCommands : List String
  parseAll : Bool
  deriving DecidableEq, Repr

inductive OptionsError where
  | invalid
  | table (problem : TableFull)
  deriving DecidableEq, Repr

def OptionsError.message : OptionsError → String
  | .invalid => "invalid comment options"
  | .table problem => problem.message

namespace Options

open Yaml (Node)

def plain : Options := ⟨[], false⟩

def documented : String :=
  "# Block commands on top of the builtin ones, such as retval or complexity.\n" ++
    "block_command_names: []\n" ++
    "# Whether ordinary comments count as documentation comments.\n" ++
    "parse_all_comments: false\n"

def isMissing : Node → Bool
  | .scalar plain text => plain && text == ""
  | _ => false

def textOf? : Node → Option String
  | .scalar _ text => some text
  | _ => none

def namesOf? : Node → Option (List String)
  | .sequence items => items.mapM textOf?
  | node => if isMissing node then some [] else none

def truthOf? : Node → Option Bool
  | .scalar true text => Yaml.truth? text
  | _ => none

def member? {α : Type} (key : String) (default : α) (read : Node → Option α)
    (entries : List (String × Node)) : Option α :=
  match entries.filter (·.1 == key) with
  | [] => some default
  | [(_, value)] => read value
  | _ => none

def ofNode? : Node → Option Options
  | .mapping entries => do
    let entries ← entries.mapM fun (key, value) => do return (← textOf? key, value)
    return ⟨← member? "block_command_names" plain.blockCommands namesOf? entries,
      ← member? "parse_all_comments" plain.parseAll truthOf? entries⟩
  | node => if isMissing node then some plain else none

def parse? (text : String) : Option Options := do
  match ← Node.parse? text with
  | [] => return plain
  | [node] => ofNode? node
  | _ => none

def parse (text : String) : Except OptionsError Options :=
  match parse? text with
  | some o => .ok o
  | none => .error .invalid

def ofDocumented : Except OptionsError Options := parse documented

def namesYaml (names : List String) : List Char :=
  match names with
  | [] => " []\n".toList
  | _ => '\n' :: names.flatMap fun name => '-' :: ' ' :: Yaml.Style.write name

def toYaml (o : Options) : String :=
  String.ofList ("block_command_names:".toList ++ namesYaml o.blockCommands ++
    "parse_all_comments: ".toList ++ (if o.parseAll then "true\n" else "false\n").toList)

def survives (o : Options) : Bool := parse? o.toYaml == some o

def commandTable (o : Options) : Except OptionsError CommandTable :=
  match CommandTable.builtin.registerBlocks o.blockCommands with
  | .ok t => .ok t
  | .error problem => .error (.table problem)

end Options
end DocTree
