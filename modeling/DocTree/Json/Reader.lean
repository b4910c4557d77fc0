import DocTree.Json.Text

/-! Reading JSON. Every step of the reader takes at least one character, so a text's
length bounds the number of steps. -/
namespace DocTree.Json

def isSpace (c : Char) : Bool := c == ' ' || c == '\n' || c == '\t' || c == '\r'

def skipSpace (cs : List Char) : List Char := cs.dropWhile isSpace

def takeDigits (cs : List Char) : List Char × List Char := cs.span Char.isDigit

def readDigits (cs : List Char) : Option (List Char × List Char) :=
  match takeDigits cs with
  | ([], _) => none
  | digits => some digits

def readWhole : List Char → Option (List Char × List Char)
  | '0' :: rest =>
    match rest with
    | c :: _ => if c.isDigit then none else some (['0'], rest)
    | [] => some (['0'], [])
  | cs => readDigits cs

def readFraction : List Char → Option (List Char × List Char)
  | '.' :: rest => do
    let (digits, after) ← readDigits rest
    return ('.' :: digits, after)
  | cs => some ([], cs)

def readExponent : List Char → Option (List Char × List Char)
  | [] => some ([], [])
  | c :: rest =>
    if c = 'e' ∨ c = 'E' then
      match rest with
      | [] => none
      | s :: more =>
        if s = '+' ∨ s = '-' then do
          let (digits, after) ← readDigits more
          return (c :: s :: digits, after)
        else do
          let (digits, after) ← readDigits rest
          return (c :: digits, after)
    else some ([], c :: rest)

def readUnsigned (cs : List Char) : Option (List Char × List Char) := do
  let (whole, cs) ← readWhole cs
  let (fraction, cs) ← readFraction cs
  let (exponent, cs) ← readExponent cs
  return (whole ++ fraction ++ exponent, cs)

def readNumber : List Char → Option (Json × List Char)
  | '-' :: rest => do
    let (spelling, after) ← readUnsigned rest
    return (.number (String.ofList ('-' :: spelling)), after)
  | cs => do
    let (spelling, after) ← readUnsigned cs
    return (.number (String.ofList spelling), after)

mutual

def readValue : Nat → List Char → Option (Json × List Char)
  | 0, _ => none
  | steps + 1, cs =>
    match skipSpace cs with
    | '"' :: rest => do
      let (content, after) ← readText rest
      return (.string content, after)
    | '[' :: rest =>
      match skipSpace rest with
      | ']' :: after => some (.array [], after)
      | rest => do
        let (items, after) ← readItems steps rest
        return (.array items, after)
    | '\x7b' :: rest =>
      match skipSpace rest with
      | '\x7d' :: after => some (.object [], after)
      | rest => do
        let (members, after) ← readMembers steps rest
        return (.object members, after)
    | 'n' :: 'u' :: 'l' :: 'l' :: after => some (.null, after)
    | 't' :: 'r' :: 'u' :: 'e' :: after => some (.bool true, after)
    | 'f' :: 'a' :: 'l' :: 's' :: 'e' :: after => some (.bool false, after)
    | cs => readNumber cs
termination_by structural steps => steps

def readItems : Nat → List Char → Option (List Json × List Char)
  | 0, _ => none
  | steps + 1, cs => do
    let (item, cs) ← readValue steps cs
    match skipSpace cs with
    | ',' :: rest =>
      let (items, after) ← readItems steps rest
      return (item :: items, after)
    | ']' :: after => return ([item], after)
    | _ => none
termination_by structural steps => steps

def readMembers : Nat → List Char → Option (List (JsonText × Json) × List Char)
  | 0, _ => none
  | steps + 1, cs =>
    match skipSpace cs with
    | '"' :: rest => do
      let (key, cs) ← readText rest
      match skipSpace cs with
      | ':' :: rest =>
        let (value, cs) ← readValue steps rest
        match skipSpace cs with
        | ',' :: rest =>
          let (members, after) ← readMembers steps rest
          return ((key, value) :: members, after)
        | '\x7d' :: after => return ([(key, value)], after)
        | _ => none
      | _ => none
    | _ => none
termination_by structural steps => steps

end

def parse? (text : String) : Option Json :=
  let cs := text.toList
  match readValue (cs.length + 1) cs with
  | some (value, after) => if skipSpace after = [] then some value else none
  | none => none

end DocTree.Json
