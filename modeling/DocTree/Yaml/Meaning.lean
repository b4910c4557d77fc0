/-! What a plain scalar means other than its text: nothing, a truth value or a number. -/
namespace DocTree.Yaml

def isNull (text : String) : Bool := ["", "~", "null", "Null", "NULL"].contains text

def truth? (text : String) : Option Bool :=
  if ["true", "True", "TRUE"].contains text then some true
  else if ["false", "False", "FALSE"].contains text then some false
  else none

namespace Number

def digit? (radix : Nat) (c : Char) : Option Nat :=
  let value :=
    if '0' ≤ c ∧ c ≤ '9' then some (c.toNat - '0'.toNat)
    else if 'a' ≤ c ∧ c ≤ 'f' then some (c.toNat - 'a'.toNat + 10)
    else if 'A' ≤ c ∧ c ≤ 'F' then some (c.toNat - 'A'.toNat + 10)
    else none
  value.filter (· < radix)

def digits? (radix : Nat) (cs : List Char) : Option (List Nat) := cs.mapM (digit? radix)

def value (radix : Nat) (digits : List Nat) : Nat := digits.foldl (fun n d => n * radix + d) 0

def isRadixNumber (greatest : Nat) (cs : List Char) : Bool :=
  match cs with
  | '0' :: mark :: c :: rest =>
    let radix := if mark = 'x' then 16 else if mark = 'o' then 8 else if mark = 'b' then 2 else 0
    (digits? radix (c :: rest)).any fun digits => decide (value radix digits ≤ greatest)
  | _ => false

def isPadded (cs : List Char) : Bool :=
  match cs with
  | '0' :: c :: rest => (c :: rest).all Char.isDigit
  | _ => false

/-- The distance from zero at which numbers stop being finite: the greatest of 53 binary
digits below 2 ^ 1024, and half a unit of its last digit. -/
def bound : Nat := Nat.pow 2 1024 - Nat.pow 2 970

def isFinite (mantissa : List Nat) (exponent : Int) : Bool :=
  let digits := mantissa.dropWhile (· == 0)
  let size := exponent + digits.length
  let n := value 10 digits
  if digits.isEmpty || decide (size ≤ 300) then true
  else if size > 400 then false
  else if 0 ≤ exponent then decide (n * Nat.pow 10 exponent.toNat < bound)
  else decide (n < bound * Nat.pow 10 (-exponent).toNat)

def exponent? : List Char → Option Int
  | [] => some 0
  | e :: rest =>
    if e = 'e' ∨ e = 'E' then
      match rest with
      | '-' :: c :: more => do return -(Int.ofNat (value 10 (← digits? 10 (c :: more))))
      | '+' :: c :: more => do return Int.ofNat (value 10 (← digits? 10 (c :: more)))
      | c :: more => do return Int.ofNat (value 10 (← digits? 10 (c :: more)))
      | [] => none
    else none

def isDecimal (cs : List Char) : Bool :=
  let (whole, rest) := cs.span Char.isDigit
  let (fraction, rest) := match rest with
    | '.' :: more => more.span Char.isDigit
    | _ => ([], rest)
  if whole.isEmpty && fraction.isEmpty then false
  else
    match digits? 10 (whole ++ fraction), exponent? rest with
    | some digits, some exponent => isFinite digits (exponent - fraction.length)
    | _, _ => false

def isInfinity (text : String) : Bool := [".inf", ".Inf", ".INF"].contains text

def isUndefined (text : String) : Bool := [".nan", ".NaN", ".NAN"].contains text

end Number

open Number in
def isNumber (text : String) : Bool :=
  match text.toList with
  | '-' :: cs =>
    isRadixNumber (Nat.pow 2 127) cs || isPadded cs || isDecimal cs || isInfinity (String.ofList cs)
  | '+' :: cs =>
    isRadixNumber (Nat.pow 2 128 - 1) cs || isPadded cs || isDecimal cs || isInfinity (String.ofList cs)
  | cs =>
    isRadixNumber (Nat.pow 2 128 - 1) cs || isPadded cs || isDecimal cs || isInfinity text ||
      isUndefined text

def isAmbiguous (text : String) : Bool := isNull text || (truth? text).isSome || isNumber text

end DocTree.Yaml
