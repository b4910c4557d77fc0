import DocTree.Yaml.Token

/-! YAML nodes, and reading the documents of a text. What is left out, such as the value
of a key, is a plain scalar without text. -/
namespace DocTree.Yaml

inductive Node where
  | scalar (plain : Bool) (text : String)
  | sequence (items : List Node)
  | mapping (entries : List (Node × Node))
  deriving Repr

namespace Node

def missing : Node := .scalar true ""

def nextIn (tokens : List Token) : List Token → Bool
  | [] => false
  | token :: _ => tokens.contains token

mutual

/-- The node that starts here. Blocks may start only in a block, and a sequence of the
same column as the key before it has no token of its own. -/
def read (block sameColumn : Bool) : Nat → List Token → Option (Node × List Token)
  | 0, _ => none
  | steps + 1, tokens =>
    match tokens with
    | .scalar plain text :: rest => some (.scalar plain text, rest)
    | .flowSequence :: rest => flowItems steps true [] rest
    | .flowMapping :: rest => flowEntries steps true [] rest
    | .blockSequence :: rest => if block then blockItems steps true [] rest else none
    | .blockMapping :: rest => if block then blockEntries steps [] rest else none
    | .entry :: _ => if sameColumn then blockItems steps false [] tokens else none
    | _ => none
termination_by structural steps => steps

def readUnless (steps : Nat) (enders : List Token) (block sameColumn : Bool)
    (tokens : List Token) : Option (Node × List Token) :=
  match steps with
  | 0 => none
  | steps + 1 =>
    if nextIn enders tokens then some (missing, tokens) else read block sameColumn steps tokens
termination_by structural steps

def blockItems (steps : Nat) (closed : Bool) (items : List Node) (tokens : List Token) :
    Option (Node × List Token) :=
  match steps with
  | 0 => none
  | steps + 1 =>
    match tokens with
    | .entry :: rest => do
      let enders := if closed then [.entry, .blockEnd] else [.entry, .key, .value, .blockEnd]
      let (item, rest) ← readUnless steps enders true false rest
      blockItems steps closed (item :: items) rest
    | .blockEnd :: rest =>
      some (.sequence items.reverse, if closed then rest else tokens)
    | _ => if closed then none else some (.sequence items.reverse, tokens)
termination_by structural steps

def blockEntries (steps : Nat) (entries : List (Node × Node)) (tokens : List Token) :
    Option (Node × List Token) :=
  match steps with
  | 0 => none
  | steps + 1 =>
    match tokens with
    | .key :: rest => do
      let enders := [.key, .value, .blockEnd]
      let (key, rest) ← readUnless steps enders true true rest
      match rest with
      | .value :: rest =>
        let (value, rest) ← readUnless steps enders true true rest
        blockEntries steps ((key, value) :: entries) rest
      | _ => blockEntries steps ((key, missing) :: entries) rest
    | .blockEnd :: rest => some (.mapping entries.reverse, rest)
    | _ => none
termination_by structural steps

def flowItems (steps : Nat) (first : Bool) (items : List Node) (tokens : List Token) :
    Option (Node × List Token) :=
  match steps with
  | 0 => none
  | steps + 1 =>
    match tokens, first with
    | .flowSequenceEnd :: rest, _ => some (.sequence items.reverse, rest)
    | .comma :: .flowSequenceEnd :: rest, false => some (.sequence items.reverse, rest)
    | .comma :: rest, false => do
      let (item, rest) ← flowItem steps rest
      flowItems steps false (item :: items) rest
    | _, false => none
    | _, true => do
      let (item, rest) ← flowItem steps tokens
      flowItems steps false (item :: items) rest
termination_by structural steps

def flowItem (steps : Nat) (tokens : List Token) : Option (Node × List Token) :=
  match steps with
  | 0 => none
  | steps + 1 =>
    match tokens with
    | .key :: rest => do
      let (key, rest) ← read false false steps rest
      match rest with
      | .value :: rest =>
        let (value, rest) ← readUnless steps [.comma, .flowSequenceEnd] false false rest
        return (.mapping [(key, value)], rest)
      | _ => return (.mapping [(key, missing)], rest)
    | _ => read false false steps tokens
termination_by structural steps

def flowEntries (steps : Nat) (first : Bool) (entries : List (Node × Node))
    (tokens : List Token) : Option (Node × List Token) :=
  match steps with
  | 0 => none
  | steps + 1 =>
    match tokens, first with
    | .flowMappingEnd :: rest, _ => some (.mapping entries.reverse, rest)
    | .comma :: .flowMappingEnd :: rest, false => some (.mapping entries.reverse, rest)
    | .comma :: rest, false => do
      let (item, rest) ← flowEntry steps rest
      flowEntries steps false (item :: entries) rest
    | _, false => none
    | _, true => do
      let (item, rest) ← flowEntry steps tokens
      flowEntries steps false (item :: entries) rest
termination_by structural steps

def flowEntry (steps : Nat) (tokens : List Token) : Option ((Node × Node) × List Token) :=
  match steps with
  | 0 => none
  | steps + 1 =>
    match tokens with
    | .key :: rest => do
      let (key, rest) ← readUnless steps [.value, .comma, .flowMappingEnd] false false rest
      match rest with
      | .value :: rest =>
        let (value, rest) ← readUnless steps [.comma, .flowMappingEnd] false false rest
        return ((key, value), rest)
      | _ => return ((key, missing), rest)
    | _ => do
      let (key, rest) ← read false false steps tokens
      return ((key, missing), rest)
termination_by structural steps

end

def stepsFor (tokens : List Token) : Nat := 4 * tokens.length + 4

def documentsFrom : Nat → List Token → Option (List Node)
  | 0, _ => none
  | steps + 1, tokens =>
    match tokens.dropWhile (· == .documentEnd) with
    | [] => some []
    | .documentStart :: rest => do
      let bare := rest.isEmpty || nextIn [.documentStart, .documentEnd] rest
      let (node, rest) ← if bare then some (missing, rest) else read true false (stepsFor rest) rest
      return node :: (← documentsFrom steps rest)
    | _ => none

def ofTokens? (tokens : List Token) : Option (List Node) :=
  match tokens with
  | [] => some []
  | .documentStart :: _ => documentsFrom (tokens.length + 1) tokens
  | _ => do
    let (node, rest) ← read true false (stepsFor tokens) tokens
    return node :: (← documentsFrom (tokens.length + 1) rest)

def parse? (text : String) : Option (List Node) := do
  ofTokens? (← Token.scan? (← Glyph.ofText? text))

end Node
end DocTree.Yaml
