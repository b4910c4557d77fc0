import DocTree.Yaml.Glyph

/-! Reading scalars: plain ones, quoted ones and blocks of lines. Each reader gives the
text and the glyphs after it. `floor` is the first column that content may stand in. -/
namespace DocTree.Yaml

/-- What blanks and breaks between two words stand for: one newline is a space, more of
them are one less, and without a break the blanks count. -/
def foldGap (gap : List Glyph) : List Char :=
  match (gap.map Glyph.char).filter isBreak with
  | [] => gap.map Glyph.char
  | ['\n'] => [' ']
  | '\n' :: more => more
  | breaks => breaks

def hasStrayTab (floor : Nat) (gap : List Glyph) : Bool :=
  (gap.dropWhile fun g => !isBreak g.char).any fun g => g.char == '\t' && decide (g.column < floor)

namespace Plain

def isFlowMark (c : Char) : Bool :=
  c == ',' || c == '[' || c == ']' || c == '\x7b' || c == '\x7d'

def colonRunsOn : List Glyph → Bool
  | [] => false
  | g :: _ => isFlowMark g.char || g.char == '?'

def run (flow : Bool) : List Glyph → Option (List Char × List Glyph)
  | [] => some ([], [])
  | g :: rest =>
    if g.isGap then some ([], g :: rest)
    else if flow && g.char == ':' && colonRunsOn rest then none
    else if g.char == ':' && endsWord rest || flow && isFlowMark g.char then some ([], g :: rest)
    else do
      let (word, after) ← run flow rest
      return (g.char :: word, after)

def stops (flow : Bool) (floor : Nat) : List Glyph → Bool
  | [] => true
  | g :: rest => atMarker (g :: rest) || g.char == '#' || !flow && decide (g.column < floor)

def read (flow : Bool) (floor : Nat) : Nat → List Glyph → Option (List Char × List Glyph × Bool)
  | 0, _ => none
  | steps + 1, gs => do
    let (word, gs) ← run flow gs
    let (gap, next) := gs.span Glyph.isGap
    let broken := gap.any fun g => isBreak g.char
    if hasStrayTab floor gap then none
    else if stops flow floor next then return (word, next, broken)
    else if gap.isEmpty then return (word, next, false)
    else
      match ← read flow floor steps next with
      | ([], _, _) => return (word, next, broken)
      | (more, after, brokenAfter) => return (word ++ foldGap gap ++ more, after, brokenAfter)

end Plain

namespace Quote

def hexValue? (c : Char) : Option Nat :=
  if '0' ≤ c ∧ c ≤ '9' then some (c.toNat - '0'.toNat)
  else if 'a' ≤ c ∧ c ≤ 'f' then some (c.toNat - 'a'.toNat + 10)
  else if 'A' ≤ c ∧ c ≤ 'F' then some (c.toNat - 'A'.toNat + 10)
  else none

def hexNumber? (value : Nat) : Nat → List Glyph → Option (Nat × List Glyph)
  | 0, gs => some (value, gs)
  | _ + 1, [] => none
  | digits + 1, g :: rest => do hexNumber? (value * 16 + (← hexValue? g.char)) digits rest

def named : List (Char × Char) :=
  [('0', '\x00'), ('a', '\x07'), ('b', '\x08'), ('t', '\t'), ('\t', '\t'), ('n', '\n'),
    ('v', '\x0b'), ('f', '\x0c'), ('r', '\r'), ('e', '\x1b'), (' ', ' '), ('"', '"'), ('/', '/'),
    ('\\', '\\'), ('N', '\x85'), ('_', '\xa0'), ('L', '\u2028'), ('P', '\u2029')]

def codeLength? (c : Char) : Option Nat :=
  if c = 'x' then some 2 else if c = 'u' then some 4 else if c = 'U' then some 8 else none

def escape? : List Glyph → Option (Char × List Glyph)
  | [] => none
  | g :: rest =>
    match codeLength? g.char with
    | some digits => do
      let (n, after) ← hexNumber? 0 digits rest
      if n.isValidChar then return (Char.ofNat n, after) else none
    | none => (named.lookup g.char).map (·, rest)

def readSingle : Nat → List Glyph → Option (List Char × List Glyph)
  | 0, _ => none
  | steps + 1, gs =>
    if atMarker gs then none
    else
      match gs with
      | [] => none
      | g :: rest =>
        if g.isGap then do
          let (gap, next) := gs.span Glyph.isGap
          let (more, after) ← readSingle steps next
          return (foldGap gap ++ more, after)
        else if g.char = '\'' then
          match rest with
          | [] => some ([], [])
          | h :: next =>
            if h.char = '\'' then do
              let (more, after) ← readSingle steps next
              return ('\'' :: more, after)
            else some ([], rest)
        else do
          let (more, after) ← readSingle steps rest
          return (g.char :: more, after)

def readDouble : Nat → List Glyph → Option (List Char × List Glyph)
  | 0, _ => none
  | steps + 1, gs =>
    if atMarker gs then none
    else
      match gs with
      | [] => none
      | g :: rest =>
        if g.isGap then do
          let (gap, next) := gs.span Glyph.isGap
          let (more, after) ← readDouble steps next
          return (foldGap gap ++ more, after)
        else if g.char = '"' then some ([], rest)
        else if g.char = '\\' then
          match rest with
          | [] => none
          | h :: following =>
            if isBreak h.char then do
              let (gap, next) := following.span Glyph.isGap
              let (more, after) ← readDouble steps next
              return ((gap.map Glyph.char).filter isBreak ++ more, after)
            else do
              let (c, next) ← escape? rest
              let (more, after) ← readDouble steps next
              return (c :: more, after)
        else do
          let (more, after) ← readDouble steps rest
          return (g.char :: more, after)

end Quote

namespace Lines

inductive Chomp where
  | strip
  | clip
  | keep
  deriving DecidableEq, Repr

def chomp? (c : Char) : Option Chomp :=
  if c = '-' then some .strip else if c = '+' then some .keep else none

def indent? (c : Char) : Option Nat :=
  if '1' ≤ c ∧ c ≤ '9' then some (c.toNat - '0'.toNat) else none

def header : List Glyph → Chomp × Option Nat × List Glyph
  | [] => (.clip, none, [])
  | g :: rest =>
    match chomp? g.char, indent? g.char, rest with
    | some chomp, _, h :: next =>
      match indent? h.char with
      | some indent => (chomp, some indent, next)
      | none => (chomp, none, rest)
    | some chomp, _, [] => (chomp, none, [])
    | none, some indent, h :: next =>
      match chomp? h.char with
      | some chomp => (chomp, some indent, next)
      | none => (.clip, some indent, rest)
    | none, some indent, [] => (.clip, some indent, [])
    | none, none, _ => (.clip, none, g :: rest)

def afterHeader? (gs : List Glyph) : Option (List Glyph) :=
  let gs := gs.dropWhile fun g => isBlank g.char
  let gs := if gs.head?.any (·.char == '#') then gs.dropWhile fun g => !isBreak g.char else gs
  match gs with
  | [] => some []
  | g :: rest => if isBreak g.char then some rest else none

def skipEmpty (indent : Option Nat) (widest : Nat) :
    List Glyph → Option (List Char × Nat × List Glyph)
  | [] => some ([], widest, [])
  | g :: rest =>
    let widest := max widest g.column
    let inside := indent.all fun n => decide (g.column < n)
    if inside && g.char == ' ' then skipEmpty indent widest rest
    else if inside && g.char == '\t' then none
    else if isBreak g.char then do
      let (breaks, widest, after) ← skipEmpty indent widest rest
      return (g.char :: breaks, widest, after)
    else some ([], widest, g :: rest)

structure Progress where
  text : List Char
  lead : List Char
  leadBlank : Bool
  empty : List Char

def Progress.join (p : Progress) (literal blank : Bool) : List Char :=
  if !literal && p.lead == ['\n'] && !p.leadBlank && !blank then
    if p.empty.isEmpty then [' '] else p.empty
  else p.lead ++ p.empty

def readLines (literal : Bool) (indent : Nat) :
    Nat → Progress → List Glyph → Option (Progress × List Glyph)
  | 0, _, _ => none
  | _ + 1, p, [] => some (p, [])
  | steps + 1, p, g :: rest =>
    if g.column = indent then do
      let blank := isBlank g.char
      let (line, after) := (g :: rest).span fun g => !isBreak g.char
      let lead := (after.take 1).map Glyph.char
      let (empty, _, next) ← skipEmpty (some indent) 0 (after.drop 1)
      readLines literal indent steps
        ⟨p.text ++ p.join literal blank ++ line.map Glyph.char, lead, blank, empty⟩ next
    else some (p, g :: rest)

def read (literal : Bool) (floor steps : Nat) (gs : List Glyph) :
    Option (List Char × List Glyph) := do
  let (chomp, given, gs) := header gs
  let gs ← afterHeader? gs
  let known := given.map fun n => floor - 1 + n
  let (empty, widest, gs) ← skipEmpty known 0 gs
  let indent := known.getD (max widest (max floor 1))
  let (p, after) ← readLines literal indent steps ⟨[], [], false, empty⟩ gs
  match chomp with
  | .strip => return (p.text, after)
  | .clip => return (p.text ++ p.lead, after)
  | .keep => return (p.text ++ p.lead ++ p.empty, after)

end Lines
end DocTree.Yaml
