/-!
# Values of settings files

What a settings file holds, and what an override can set: scalars, arrays and tables. The members of
a table keep the order in which they were given.

Booleans, integers of 64 bits and floats are read from the words that spell them (`scalar?`). Between
two digits there may be an underscore.
-/

namespace GrammarFormat.Toml

inductive Value where
  | string (value : String)
  | integer (value : Int)
  | float (value : Float)
  | boolean (value : Bool)
  | array (items : List Value)
  | table (members : List (String × Value))
  /-- The place of an item that an array was never given. -/
  | unset

/-- The member of a table under that key. -/
def member? {α : Type} (key : String) (members : List (String × α)) : Option α :=
  (members.find? fun (k, _) => k == key).map (·.2)

/-- The members of a table with that one set, in its place or at the end. -/
def put {α : Type} (key : String) (value : α) : List (String × α) → List (String × α)
  | [] => [(key, value)]
  | (k, v) :: rest => if k == key then (k, value) :: rest else (k, v) :: put key value rest

/-! ### Scalars -/

/-- The digits of a word that has only digits, and underscores between them. -/
def digits? (isDigit : Char → Bool) : List Char → Option (List Char)
  | [] => none
  | [c] => if isDigit c then some [c] else none
  | c :: '_' :: rest => if isDigit c then (digits? isDigit rest).map (c :: ·) else none
  | c :: rest => if isDigit c then (digits? isDigit rest).map (c :: ·) else none

def isHexDigit (c : Char) : Bool :=
  c.isDigit || ('a' ≤ c.toLower && c.toLower ≤ 'f')

def digitValue (c : Char) : Nat :=
  if c.isDigit then c.toNat - '0'.toNat else c.toLower.toNat - 'a'.toNat + 10

/-- The number that digits spell in a base. -/
def ofDigits (base : Nat) (digits : List Char) : Nat :=
  digits.foldl (fun n c => n * base + digitValue c) 0

/-- The digits of a decimal number, which has no zeros in front. -/
def decimalDigits? (word : List Char) : Option (List Char) :=
  (digits? Char.isDigit word).filter fun digits => digits.length == 1 || digits.head? != some '0'

def integer? (value : Int) : Option Value :=
  if -0x8000000000000000 ≤ value ∧ value < 0x8000000000000000 then some (.integer value) else none

/-- A float with that size: too large a number has none, unless it is negative. -/
def float? (negative : Bool) (mantissa : List Char) (exponent : Int) : Option Value :=
  let number := ofDigits 10 mantissa
  let top := exponent + mantissa.length
  let sign (x : Float) : Value := .float (if negative then -x else x)
  if number = 0 ∨ top < -400 then some (sign 0)
  else if 400 < top then if negative then some (sign (1.0 / 0.0)) else none
  else
    let size := Float.ofScientific number (exponent < 0) exponent.natAbs
    if size.isInf && !negative then none else some (sign size)

/-- The exponent of a float, 0 if there is none. -/
def exponent? : List Char → Option Int
  | [] => some 0
  | _ :: '-' :: word => (digits? Char.isDigit word).map fun digits => -(ofDigits 10 digits : Int)
  | _ :: '+' :: word => (digits? Char.isDigit word).map fun digits => ofDigits 10 digits
  | _ :: word => (digits? Char.isDigit word).map fun digits => ofDigits 10 digits

/-- A decimal number without its sign: an integer, or a float if it has a point or an exponent. -/
def number? (negative : Bool) (word : List Char) : Option Value :=
  let (mantissa, exponent) := word.span fun c => c != 'e' && c != 'E'
  let (whole, fraction) := mantissa.span (· != '.')
  match decimalDigits? whole, fraction, exponent with
  | none, _, _ => none
  | some digits, [], [] =>
    let size : Int := ofDigits 10 digits
    integer? (if negative then -size else size)
  | some digits, [], _ => do
    float? negative digits (← exponent? exponent)
  | some digits, _ :: fraction, _ => do
    let places ← digits? Char.isDigit fraction
    float? negative (digits ++ places) ((← exponent? exponent) - places.length)

def signed? (negative : Bool) (word : List Char) : Option Value :=
  if word = "inf".toList then some (.float (if negative then -1.0 / 0.0 else 1.0 / 0.0))
  else if word = "nan".toList then some (.float (0.0 / 0.0))
  else number? negative word

def radix? (base : Nat) (isDigit : Char → Bool) (word : List Char) : Option Value := do
  integer? (ofDigits base (← digits? isDigit word))

/-- The scalar that a word spells. -/
def scalar? (word : List Char) : Option Value :=
  match word with
  | '+' :: rest => signed? false rest
  | '-' :: rest => signed? true rest
  | '0' :: 'x' :: rest => radix? 16 isHexDigit rest
  | '0' :: 'o' :: rest => radix? 8 (fun c => '0' ≤ c && c ≤ '7') rest
  | '0' :: 'b' :: rest => radix? 2 (fun c => c == '0' || c == '1') rest
  | _ =>
    if word = "true".toList then some (.boolean true)
    else if word = "false".toList then some (.boolean false)
    else signed? false word

end GrammarFormat.Toml
