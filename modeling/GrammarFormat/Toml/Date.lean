import GrammarFormat.Toml.Blanks
import GrammarFormat.Toml.Value

/-!
# Dates and times of settings files

A date, a time, or both with an optional offset. Settings know dates by their text only, which
`DateTime.text` writes in one way however they were written.
-/

namespace GrammarFormat.Toml

structure Date where
  year : Nat
  month : Nat
  day : Nat
  deriving DecidableEq, Repr

structure Time where
  hour : Nat
  minute : Nat
  second : Nat
  nanosecond : Nat
  deriving DecidableEq, Repr

/-- The distance from universal time. -/
inductive Offset where
  | universal
  | minutes (east : Int)
  deriving DecidableEq, Repr

inductive DateTime where
  | date (date : Date)
  | time (time : Time)
  | both (date : Date) (time : Time) (offset? : Option Offset)
  deriving DecidableEq, Repr

/-! ### Text -/

/-- A number with zeros in front of it. -/
def padded (width : Nat) (n : Nat) : String :=
  let digits := Nat.toDigits 10 n
  String.ofList (List.replicate (width - digits.length) '0' ++ digits)

def Date.text (d : Date) : String :=
  padded 4 d.year ++ "-" ++ padded 2 d.month ++ "-" ++ padded 2 d.day

/-- A fraction of a second is written without the zeros at its end. -/
def Time.text (t : Time) : String :=
  let fraction := (padded 9 t.nanosecond).toList.reverse.dropWhile (· == '0')
  padded 2 t.hour ++ ":" ++ padded 2 t.minute ++ ":" ++ padded 2 t.second ++
    (if fraction.isEmpty then "" else "." ++ String.ofList fraction.reverse)

def Offset.text : Offset → String
  | universal => "Z"
  | minutes east =>
    let size := east.natAbs
    (if east < 0 then "-" else "+") ++ padded 2 (size / 60) ++ ":" ++ padded 2 (size % 60)

def DateTime.text : DateTime → String
  | date d => d.text
  | time t => t.text
  | both d t offset? => d.text ++ "T" ++ t.text ++ (offset?.map Offset.text).getD ""

/-! ### Validity -/

def isLeapYear (year : Nat) : Bool :=
  year % 4 == 0 && (year % 100 != 0 || year % 400 == 0)

def daysOf (year : Nat) : (month : Nat) → Nat
  | 2 => if isLeapYear year then 29 else 28
  | 4 | 6 | 9 | 11 => 30
  | _ => 31

def Date.isValid (d : Date) : Bool :=
  1 ≤ d.month && d.month ≤ 12 && 1 ≤ d.day && d.day ≤ daysOf d.year d.month

/-- A minute may have a leap second. -/
def Time.isValid (t : Time) : Bool :=
  t.hour < 24 && t.minute < 60 && t.second ≤ 60

/-! ### Reading -/

/-- A number of exactly so many digits. -/
def number (width : Nat) : Reader Nat := fun s =>
  let digits := s.take width
  if digits.length == width && digits.all Char.isDigit then
    some (ofDigits 10 digits, s.drop width)
  else none

/-- The rest behind a character. -/
def behind (c : Char) : List Char → Option (List Char)
  | [] => none
  | first :: rest => if first == c then some rest else none

def date : Reader Date := fun s => do
  let (year, s) ← number 4 s
  let (month, s) ← number 2 (← behind '-' s)
  let (day, s) ← number 2 (← behind '-' s)
  if Date.isValid ⟨year, month, day⟩ then some (⟨year, month, day⟩, s) else none

/-- An optional fraction of a second, of which nine digits count. -/
def fraction : List Char → Nat × List Char
  | '.' :: rest =>
    match rest.takeWhile Char.isDigit with
    | [] => (0, '.' :: rest)
    | digits =>
      let kept := digits.take 9
      (ofDigits 10 (kept ++ List.replicate (9 - kept.length) '0'), rest.dropWhile Char.isDigit)
  | s => (0, s)

def time : Reader Time := fun s => do
  let (hour, s) ← number 2 s
  let (minute, s) ← number 2 (← behind ':' s)
  let (second, s) ← number 2 (← behind ':' s)
  let (nanosecond, s) := fraction s
  let t : Time := ⟨hour, minute, second, nanosecond⟩
  if t.isValid then some (t, s) else none

def offset : Reader Offset
  | 'Z' :: rest | 'z' :: rest => some (.universal, rest)
  | sign :: rest => do
    if sign != '+' && sign != '-' then none
    let (hour, rest) ← number 2 rest
    let (minute, rest) ← number 2 (← behind ':' rest)
    if hour < 24 && minute < 60 then
      let size : Int := hour * 60 + minute
      some (.minutes (if sign == '-' then -size else size), rest)
    else none
  | [] => none

/-- The time behind a date, with its offset. -/
def timeBehind : Reader (Time × Option Offset)
  | delimiter :: rest => do
    if !(['T', 't', ' '].contains delimiter) then none
    let (t, rest) ← time rest
    match offset rest with
    | some (o, rest) => return ((t, some o), rest)
    | none => return ((t, none), rest)
  | [] => none

def dateTime : Reader DateTime := fun s =>
  match date s with
  | some (d, rest) =>
    match timeBehind rest with
    | some ((t, offset?), rest) => some (.both d t offset?, rest)
    | none => some (.date d, rest)
  | none => (time s).map fun (t, rest) => (.time t, rest)

end GrammarFormat.Toml
