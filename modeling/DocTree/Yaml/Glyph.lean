/-! Characters with their places. A reader of YAML goes by columns and lines; every
character carries its own, so what is left of a text is all a reader has to keep. -/
namespace DocTree.Yaml

def isBlank (c : Char) : Bool := c == ' ' || c == '\t'

def isBreak (c : Char) : Bool := c == '\n' || c == '\u2028' || c == '\u2029'

def isAllowed (c : Char) : Bool :=
  let n := c.toNat
  c == '\t' || c == '\n' || c == '\r' || n == 133 || decide (32 ≤ n) && decide (n ≤ 126) ||
    decide (160 ≤ n) && n != 65534 && n != 65535

def unifyBreaks : List Char → List Char
  | [] => []
  | '\r' :: '\n' :: rest => '\n' :: unifyBreaks rest
  | c :: rest => (if c = '\r' ∨ c = '\x85' then '\n' else c) :: unifyBreaks rest

structure Glyph where
  char : Char
  /-- The number of bytes before it, each break counted as the character it is read as. -/
  index : Nat
  line : Nat
  column : Nat
  deriving DecidableEq, Repr

namespace Glyph

def isGap (g : Glyph) : Bool := isBlank g.char || isBreak g.char

def placeFrom (index line column : Nat) : List Char → List Glyph
  | [] => []
  | c :: rest =>
    ⟨c, index, line, column⟩ ::
      if isBreak c then placeFrom (index + c.utf8Size) (line + 1) 0 rest
      else placeFrom (index + c.utf8Size) line (column + 1) rest

def isByteOrderMark (g : Glyph) : Bool := g.char == '\ufeff' && g.column == 0

def ofText? (text : String) : Option (List Glyph) :=
  if text.toList.all isAllowed then some (placeFrom 0 0 0 (unifyBreaks text.toList)) else none

end Glyph

def endsWord : List Glyph → Bool
  | [] => true
  | g :: _ => g.isGap

def startsMarker (mark : Char) : List Glyph → Bool
  | a :: b :: c :: rest =>
    a.column == 0 && a.char == mark && b.char == mark && c.char == mark && endsWord rest
  | _ => false

def atMarker (gs : List Glyph) : Bool := startsMarker '-' gs || startsMarker '.' gs

end DocTree.Yaml
