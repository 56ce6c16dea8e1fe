import GrammarFormat.LineRange

/-!
# Line ranges on the command line

A range is written `FIRST:LAST`. Both are numbers of 64 bits from 1 on, in order, and may have white
space around them.
-/

namespace GrammarFormat

/-- The characters with the Unicode property `White_Space`. -/
def Text.isWhitespace (c : Char) : Bool :=
  let n := c.toNat
  (0x9 ≤ n && n ≤ 0xD) || n == 0x20 || n == 0x85 || n == 0xA0 || n == 0x1680 ||
    (0x2000 ≤ n && n ≤ 0x200A) || n == 0x2028 || n == 0x2029 || n == 0x202F || n == 0x205F ||
    n == 0x3000

/-- A text without white space at either end. -/
def Text.trim (text : List Char) : List Char :=
  ((text.dropWhile isWhitespace).reverse.dropWhile isWhitespace).reverse

namespace Command

inductive RangeError where
  /-- There is no colon. -/
  | noColon (text : String)
  | badFirst (text : String)
  | badLast (text : String)
  /-- A line 0, or the last line before the first. -/
  | badOrder (first last : Nat)
  deriving DecidableEq, Repr

def RangeError.message : RangeError → String
  | noColon text => "expected FIRST:LAST, got '" ++ text ++ "'"
  | badFirst text => "invalid first line '" ++ text ++ "'"
  | badLast text => "invalid last line '" ++ text ++ "'"
  | badOrder first last => "invalid line range " ++ toString first ++ ":" ++ toString last

/-- The number that digits spell, if there are any and it has at most 64 bits. -/
def lineNumber? (text : List Char) : Option Nat :=
  let digits :=
    match Text.trim text with
    | '+' :: rest => rest
    | digits => digits
  let number := digits.foldl (fun n c => n * 10 + (c.toNat - '0'.toNat)) 0
  if digits.isEmpty || !digits.all Char.isDigit || 0xFFFFFFFFFFFFFFFF < number then none
  else some number

def parseRange (text : String) : Except RangeError LineRange :=
  match text.toList.span (· != ':') with
  | (_, []) => .error (.noColon text)
  | (first, _ :: last) =>
    match lineNumber? first, lineNumber? last with
    | none, _ => .error (.badFirst (String.ofList first))
    | _, none => .error (.badLast (String.ofList last))
    | some m, some n =>
      if m = 0 ∨ n < m then .error (.badOrder m n) else .ok (.clamped m (some n))

end Command

end GrammarFormat
