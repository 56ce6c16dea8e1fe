/-!
# Ranges of lines

The lines to which output is restricted. A range without an upper end reaches to the end of every
text; where it is shown, its upper end is the largest line number of 64 bits.
-/

namespace GrammarFormat

structure LineRange where
  first : Nat := 1
  last? : Option Nat := none
  deriving DecidableEq, Repr

namespace LineRange

/-- The whole document. -/
def all : LineRange := {}

/-- The lines from `first` to `last?`; line numbers start at 1, and the range is never empty. -/
def clamped (first : Nat) (last? : Option Nat) : LineRange where
  first := max first 1
  last? := last?.map (max · (max first 1))

/-- The upper end as it is shown. -/
def lastShown (range : LineRange) : Nat :=
  range.last?.getD 0xFFFFFFFFFFFFFFFF

/-- Whether the lines from `first` to `last` all lie in the range. -/
def contains (range : LineRange) (first last : Nat) : Bool :=
  range.first ≤ first && range.last?.all (last ≤ ·)

end LineRange

end GrammarFormat
