import DocTree.Yaml.Scalar

/-! Tokens of a YAML text. Blocks are opened and closed by columns. That a scalar or a
flow collection was a key shows only at the colon after it, on the same line and at
most 1024 bytes on; its token then goes in front of it. Anchors, aliases, tags and
directives are not accepted. -/
namespace DocTree.Yaml

inductive Token where
  | documentStart
  | documentEnd
  | blockSequence
  | blockMapping
  | blockEnd
  | flowSequence
  | flowSequenceEnd
  | flowMapping
  | flowMappingEnd
  | entry
  | comma
  | key
  | value
  | scalar (plain : Bool) (text : String)
  deriving DecidableEq, Repr

/-- Something that may turn out to be a key. It has to, if it stands at the column of
the block around it. -/
structure Candidate where
  place : Nat
  index : Nat
  line : Nat
  column : Nat
  required : Bool
  deriving DecidableEq, Repr

structure Scanner where
  steps : Nat
  rest : List Glyph
  tokens : List Token
  count : Nat
  floor : Nat
  floors : List Nat
  candidate : Option Candidate
  outer : List (Option Candidate)
  keyAllowed : Bool

namespace Scanner

def start (gs : List Glyph) : Scanner := ⟨gs.length + 1, gs, [], 0, 0, [], none, [], true⟩

def inFlow (s : Scanner) : Bool := !s.outer.isEmpty

def push (token : Token) (s : Scanner) : Scanner :=
  { s with tokens := token :: s.tokens, count := s.count + 1 }

def insert (place : Nat) (more : List Token) (s : Scanner) : Scanner :=
  let (after, before) := s.tokens.splitAt (s.count - place)
  { s with tokens := after ++ more.reverse ++ before, count := s.count + more.length }

/-- Comments, breaks and blanks before the next token, and whether a key may come next. A
tab counts as a blank only where a key may not. A byte order mark that starts a line counts
as a space, and takes a column like one. -/
def skipGap (flow : Bool) (comment allowed : Bool) : List Glyph → Bool × List Glyph
  | [] => (allowed, [])
  | g :: rest =>
    if isBreak g.char then skipGap flow false (allowed || !flow) rest
    else if comment || g.char == '#' then skipGap flow true allowed rest
    else if g.char == ' ' || g.isByteOrderMark || g.char == '\t' && (flow || !allowed) then
      skipGap flow false allowed rest
    else (allowed, g :: rest)

def dropCandidate? (s : Scanner) : Option Scanner :=
  if s.candidate.any Candidate.required then none else some { s with candidate := none }

def Candidate.seenFrom? (g : Glyph) : Option Candidate → Option (Option Candidate)
  | none => some none
  | some c =>
    if c.line < g.line ∨ c.index + 1024 < g.index then
      if c.required then none else some none
    else some (some c)

def ageCandidates? (g : Glyph) (s : Scanner) : Option Scanner := do
  let candidate ← Candidate.seenFrom? g s.candidate
  let outer ← s.outer.mapM (Candidate.seenFrom? g)
  return { s with candidate, outer }

def closeBlocks (limit : Nat) : Nat → List Nat → Nat × List Nat × Nat
  | floor, [] => (floor, [], 0)
  | floor, below :: floors =>
    if floor > limit then
      let (floor, floors, closed) := closeBlocks limit below floors
      (floor, floors, closed + 1)
    else (floor, below :: floors, 0)

def unroll (limit : Nat) (s : Scanner) : Scanner :=
  if s.inFlow then s
  else
    let (floor, floors, closed) := closeBlocks limit s.floor s.floors
    { s with
      floor, floors, tokens := List.replicate closed .blockEnd ++ s.tokens,
      count := s.count + closed }

def opens (column : Nat) (s : Scanner) : Bool := !s.inFlow && decide (s.floor ≤ column)

def raise (column : Nat) (s : Scanner) : Scanner :=
  { s with floor := column + 1, floors := s.floor :: s.floors }

def roll (column : Nat) (token : Token) (s : Scanner) : Scanner :=
  if s.opens column then (s.raise column).push token else s

def propose? (g : Glyph) (s : Scanner) : Option Scanner :=
  if s.keyAllowed then do
    let s ← s.dropCandidate?
    let required := !s.inFlow && s.floor == g.column + 1
    return { s with candidate := some ⟨s.count, g.index, g.line, g.column, required⟩ }
  else some s

def marker? (token : Token) (s : Scanner) : Option Scanner := do
  let s ← (s.unroll 0).dropCandidate?
  return { s with rest := s.rest.drop 3, keyAllowed := false }.push token

def openFlow? (token : Token) (g : Glyph) (s : Scanner) : Option Scanner := do
  let s ← s.propose? g
  return { s with
    rest := s.rest.drop 1, candidate := none, outer := s.candidate :: s.outer,
    keyAllowed := true }.push token

def closeFlow? (token : Token) (s : Scanner) : Option Scanner := do
  let s ← s.dropCandidate?
  let s := match s.outer with
    | [] => s
    | candidate :: outer => { s with candidate, outer }
  return { s with rest := s.rest.drop 1, keyAllowed := false }.push token

def comma? (s : Scanner) : Option Scanner := do
  let s ← s.dropCandidate?
  return { s with rest := s.rest.drop 1, keyAllowed := true }.push .comma

def entry? (g : Glyph) (s : Scanner) : Option Scanner := do
  if !s.inFlow && !s.keyAllowed then none
  let s ← (s.roll g.column .blockSequence).dropCandidate?
  return { s with rest := s.rest.drop 1, keyAllowed := true }.push .entry

def explicitKey? (g : Glyph) (s : Scanner) : Option Scanner := do
  if !s.inFlow && !s.keyAllowed then none
  let s ← (s.roll g.column .blockMapping).dropCandidate?
  return { s with rest := s.rest.drop 1, keyAllowed := !s.inFlow }.push .key

def value? (g : Glyph) (s : Scanner) : Option Scanner :=
  match s.candidate with
  | some c =>
    let opening := if s.opens c.column then [.blockMapping] else []
    let s := if s.opens c.column then s.raise c.column else s
    let s := s.insert c.place (opening ++ [.key])
    some ({ s with rest := s.rest.drop 1, candidate := none, keyAllowed := false }.push .value)
  | none =>
    if !s.inFlow && !s.keyAllowed then none
    else
      let s := s.roll g.column .blockMapping
      some ({ s with rest := s.rest.drop 1, keyAllowed := !s.inFlow }.push .value)

def quoted? (double : Bool) (g : Glyph) (s : Scanner) : Option Scanner := do
  let s ← s.propose? g
  let (text, rest) ←
    if double then Quote.readDouble s.steps (s.rest.drop 1)
    else Quote.readSingle s.steps (s.rest.drop 1)
  return { s with rest, keyAllowed := false }.push (.scalar false (String.ofList text))

def plain? (g : Glyph) (s : Scanner) : Option Scanner := do
  let s ← s.propose? g
  let (text, rest, broken) ← Plain.read s.inFlow s.floor s.steps s.rest
  return { s with rest, keyAllowed := broken }.push (.scalar true (String.ofList text))

def lines? (literal : Bool) (s : Scanner) : Option Scanner := do
  let s ← s.dropCandidate?
  let (text, rest) ← Lines.read literal s.floor s.steps (s.rest.drop 1)
  return { s with rest, keyAllowed := true }.push (.scalar false (String.ofList text))

def isReserved (c : Char) : Bool :=
  [',', '[', ']', '\x7b', '\x7d', '#', '&', '*', '!', '|', '>', '\'', '"', '%', '@', '\x60'].contains c

def startsPlain (flow : Bool) (g : Glyph) (rest : List Glyph) : Bool :=
  if g.char == '-' then !endsWord rest
  else if g.char == '?' || g.char == ':' then !flow && !endsWord rest
  else !isReserved g.char && !g.isGap

def token? (g : Glyph) (rest : List Glyph) (s : Scanner) : Option Scanner :=
  if startsMarker '-' (g :: rest) then s.marker? .documentStart
  else if startsMarker '.' (g :: rest) then s.marker? .documentEnd
  else if g.char = '[' then s.openFlow? .flowSequence g
  else if g.char = '\x7b' then s.openFlow? .flowMapping g
  else if g.char = ']' then s.closeFlow? .flowSequenceEnd
  else if g.char = '\x7d' then s.closeFlow? .flowMappingEnd
  else if g.char = ',' then s.comma?
  else if g.char = '-' ∧ endsWord rest then s.entry? g
  else if g.char = '?' ∧ (s.inFlow ∨ endsWord rest) then s.explicitKey? g
  else if g.char = ':' ∧ (s.inFlow ∨ endsWord rest) then s.value? g
  else if g.char = '|' ∧ !s.inFlow then s.lines? true
  else if g.char = '>' ∧ !s.inFlow then s.lines? false
  else if g.char = '\'' then s.quoted? false g
  else if g.char = '"' then s.quoted? true g
  else if startsPlain s.inFlow g rest then s.plain? g
  else none

def step? (s : Scanner) : Option Scanner :=
  let (keyAllowed, rest) := skipGap s.inFlow false s.keyAllowed s.rest
  let s := { s with rest, keyAllowed }
  match rest with
  | [] => (s.unroll 0).dropCandidate?
  | g :: more => do
    let s ← s.ageCandidates? g
    (s.unroll (g.column + 1)).token? g more

def run : Nat → Scanner → Option Scanner
  | 0, _ => none
  | steps + 1, s => do
    let s ← s.step?
    if s.rest.isEmpty then s.step? else run steps s

end Scanner

def Token.scan? (gs : List Glyph) : Option (List Token) := do
  let s := Scanner.start gs
  return (← Scanner.run s.steps s).tokens.reverse

end DocTree.Yaml
