import DocTree.Yaml.Glyph
import DocTree.Yaml.Meaning

/-! Writing a text as a scalar of a block. It is left plain if it can be: a text of
several lines becomes a block of lines, a text that would read as something else goes
between single quotes, and double quotes take all the rest. -/
namespace DocTree.Yaml

inductive Style where
  | plain
  | single
  | double
  | lines
  deriving DecidableEq, Repr

namespace Style

/-- Characters that show as themselves: of those a text may have, all but tabs, the ends of
a line other than newlines and separators, and byte order marks. -/
def isShown (c : Char) : Bool :=
  isAllowed c && c != '\t' && c != '\r' && c != '\x85' && c != '\ufeff'

def isMark (c : Char) : Bool :=
  ['#', ',', '[', ']', '\x7b', '\x7d', '&', '*', '!', '|', '>', '\'', '"', '%', '@', '\x60'].contains c

def isSpaceOrBreak (c : Char) : Bool := c == ' ' || isBreak c

def endsHere (cs : List Char) : Bool := cs.head?.all isSpaceOrBreak

def hasInnerMark (gap : Bool) : List Char → Bool
  | [] => false
  | c :: rest =>
    c == ':' && endsHere rest || c == '#' && gap || hasInnerMark (isSpaceOrBreak c) rest

def startsMarked : List Char → Bool
  | '-' :: '-' :: '-' :: _ => true
  | '.' :: '.' :: '.' :: _ => true
  | c :: rest => isMark c || (c == '-' || c == '?') && endsHere rest
  | [] => false

def hasSpaceBreak : List Char → Bool
  | a :: b :: rest => a == ' ' && isBreak b || hasSpaceBreak (b :: rest)
  | _ => false

def hasBreakSpace : List Char → Bool
  | a :: b :: rest => isBreak a && b == ' ' || hasBreakSpace (b :: rest)
  | _ => false

def isPlain (cs : List Char) : Bool :=
  cs.all (fun c => isShown c && !isBreak c) && !startsMarked cs && !hasInnerMark true cs &&
    !cs.head?.any (· == ' ') && !cs.getLast?.any (· == ' ')

def isSingle (cs : List Char) : Bool :=
  cs.all isShown && !hasSpaceBreak cs && !hasBreakSpace cs

def isLines (cs : List Char) : Bool :=
  cs.all isShown && !hasSpaceBreak cs && !cs.getLast?.any (· == ' ')

def ofText (text : String) : Style :=
  let cs := text.toList
  if cs.contains '\n' then if isLines cs then .lines else .double
  else if isPlain cs && !isAmbiguous text then .plain
  else if isSingle cs then .single
  else .double

def indent (fresh : Bool) : List Char → List Char
  | [] => []
  | c :: rest =>
    if isBreak c then c :: indent true rest
    else if fresh then ' ' :: ' ' :: c :: indent false rest
    else c :: indent false rest

def endsLine (cs : List Char) : Bool := cs.getLast?.any isBreak

def singleText (cs : List Char) : List Char :=
  let quoted := cs.flatMap fun c => if c = '\'' then ['\'', '\''] else [c]
  '\'' :: indent false quoted ++ (if endsLine cs then [' ', ' ', '\''] else ['\''])

def hex (digits n : Nat) : List Char :=
  (List.range digits).map fun i => (Nat.digitChar (n / Nat.pow 16 (digits - 1 - i) % 16)).toUpper

def letters : List (Char × Char) :=
  [('\x00', '0'), ('\x07', 'a'), ('\x08', 'b'), ('\t', 't'), ('\n', 'n'), ('\x0b', 'v'),
    ('\x0c', 'f'), ('\r', 'r'), ('\x1b', 'e'), ('"', '"'), ('\\', '\\'), ('\x85', 'N'),
    ('\u2028', 'L'), ('\u2029', 'P')]

def escape (c : Char) : List Char :=
  let n := c.toNat
  match letters.lookup c with
  | some letter => ['\\', letter]
  | none =>
    if isShown c then [c]
    else if n ≤ 255 then '\\' :: 'x' :: hex 2 n
    else '\\' :: 'u' :: hex 4 n

def doubleText (cs : List Char) : List Char := '"' :: cs.flatMap escape ++ ['"']

def header (cs : List Char) : List Char :=
  let shown := if cs.head?.any isSpaceOrBreak then ['2'] else []
  let chomp :=
    match cs.reverse with
    | a :: b :: _ => if isBreak a then if isBreak b then ['+'] else [] else ['-']
    | [a] => if isBreak a then ['+'] else ['-']
    | [] => ['-']
  shown ++ chomp

def linesText (cs : List Char) : List Char :=
  '|' :: header cs ++ '\n' :: indent true cs ++ (if endsLine cs then [] else ['\n'])

def write (text : String) : List Char :=
  let cs := text.toList
  match ofText text with
  | .plain => cs ++ ['\n']
  | .single => singleText cs ++ ['\n']
  | .double => doubleText cs ++ ['\n']
  | .lines => linesText cs

end Style
end DocTree.Yaml
