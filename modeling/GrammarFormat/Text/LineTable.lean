/-!
# Positions in a text

Lines and columns count from 1; a column counts characters. A line ends at `\r\n`, `\n` or `\r`.

A `LineTable` holds the byte offsets at which the lines of a text start. It turns a byte offset into a
position: the line is found by bisection, and its column is counted in the characters between the start
of the line and the offset.
-/

namespace GrammarFormat

structure Position where
  line : Nat := 1
  column : Nat := 1
  deriving DecidableEq, Repr

/-- The start of a text. -/
def Position.start : Position := {}

/-- How many bytes a text takes. -/
def Text.byteSize : List Char → Nat
  | [] => 0
  | c :: rest => c.utf8Size + byteSize rest

/-- The text between two byte offsets, if both of them stand between characters. -/
def Text.slice? (source : String) (start stop : Nat) : Option String := do
  let first ← source.pos? ⟨start⟩
  let last ← source.pos? ⟨stop⟩
  if first ≤ last then some (source.extract first last) else none

structure LineTable where
  starts : Array Nat

namespace LineTable

/-- The offsets behind the line ends of these bytes, the first of which stands at `offset`. -/
def startsFrom (offset : Nat) : List UInt8 → List Nat
  | [] => []
  | 13 :: 10 :: rest => (offset + 2) :: startsFrom (offset + 2) rest
  | 13 :: rest => (offset + 1) :: startsFrom (offset + 1) rest
  | 10 :: rest => (offset + 1) :: startsFrom (offset + 1) rest
  | _ :: rest => startsFrom (offset + 1) rest

def ofText (source : String) : LineTable :=
  ⟨(0 :: startsFrom 0 source.toByteArray.data.toList).toArray⟩

/-- Looks for `offset` among the starts from `lo` up to `hi`: `ok` is where it stands, `error` where it
would have to be put in. -/
def search (starts : Array Nat) (offset lo hi : Nat) (hhi : hi ≤ starts.size) : Except Nat Nat :=
  if h : lo < hi then
    let mid := lo + (hi - lo) / 2
    have : mid < starts.size := by omega
    if starts[mid] = offset then .ok mid
    else if starts[mid] < offset then search starts offset (mid + 1) hi hhi
    else search starts offset lo mid (by omega)
  else .error lo
termination_by hi - lo

/-- The index of the line with the byte at `offset`; there is none in front of the first line. -/
def line? (table : LineTable) (offset : Nat) : Option Nat :=
  match search table.starts offset 0 table.starts.size (Nat.le_refl _) with
  | .ok line => some line
  | .error 0 => none
  | .error (line + 1) => some line

/-- Where the character at `offset` stands; an offset inside of a character has no position. -/
def position? (table : LineTable) (source : String) (offset : Nat) : Option Position := do
  let line ← table.line? offset
  let start ← table.starts[line]?
  let text ← Text.slice? source start offset
  return { line := line + 1, column := text.length + 1 }

end LineTable

end GrammarFormat
