import GrammarFormat.Layout.Joining

/-!
# Gaps between neighbours

`gapAfter` says what stands between a token and the next one: line breaks, a change of the indent,
and otherwise a space or nothing. Rules make demands of their own, which are combined: the largest
number of line breaks wins, and changes of the indent add up.

Some rules reach further than one gap and leave something in `Memory`: the parentheses of
`PARSER_BEGIN (…)` and `PARSER_END (…)` are followed by line breaks, and a group laid out over
several lines has its closing token on a line of its own. A quantifier behind such a token stays
with it, and the line break comes after the quantifier.
-/

namespace GrammarFormat

/-- What stands between a token and the next one. -/
structure Gap where
  newlines : Nat
  indent : Int
  space : Bool
  deriving DecidableEq, Repr

namespace Layout

/-- What a rule asks of a gap. -/
structure Demand where
  breaks : Nat := 0
  indent : Int := 0
  deriving DecidableEq, Repr

instance : Append Demand where
  append a b := ⟨max a.breaks b.breaks, a.indent + b.indent⟩

def Demand.when (condition : Bool) (demand : Demand) : Demand :=
  if condition then demand else {}

/-- Line breaks that come with the parenthesis that brings the depth back to `parens`. -/
structure Deferred where
  breaks : Nat
  parens : Nat
  deriving DecidableEq, Repr

/-- What the rules carry from one gap to the next. -/
structure Memory where
  /-- The closing tokens of the groups laid out over several lines, the innermost first. -/
  closers : List Nat := []
  /-- The closing token that was just put on a line of its own. -/
  closed? : Option Nat := none
  /-- A line break waits for the quantifier that comes next. -/
  postponed : Bool := false
  deferred? : Option Deferred := none
  deriving DecidableEq, Repr

open Demand (when)

/-! ### The parser's frame -/

/-- The line breaks after `PARSER_BEGIN (…)` and `PARSER_END (…)`. -/
def frameDemand (kind : TokenKind) (c : Scope) (m : Memory) : Demand :=
  match kind, m.deferred? with
  | .closeParen, some deferred => when (deferred.parens == c.parens) ⟨deferred.breaks, 0⟩
  | _, _ => {}

def deferredAfter (kind : TokenKind) (c : Scope) (m : Memory) : Option Deferred :=
  match kind with
  | .keyword .parserBegin => some ⟨1, c.parens⟩
  | .keyword .parserEnd => some ⟨2, c.parens⟩
  | .closeParen => m.deferred?.filter fun deferred => deferred.parens != c.parens
  | _ => m.deferred?

/-! ### Braces, semicolons and declarations -/

def generalDemand (current next : TokenKind) (c : Scope) : Demand :=
  when ((current == .semicolon || current == .closeBrace) && next.isDeclaration) ⟨2, 0⟩ ++
  when (current == .openBrace && next != .closeBrace) ⟨1, 1⟩ ++
  when (next == .closeBrace && current != .openBrace) ⟨1, -1⟩ ++
  when (current == .closeBrace && !([.semicolon, .comma, .closeParen, .endOfFile].contains next))
    ⟨if c.braces == 0 && next != .openBrace then 2 else 1, 0⟩ ++
  when (current == .semicolon && !c.inForHeader) ⟨1, 0⟩ ++
  when (c.body && next == .openBrace &&
    !([.openBrace, .assign, .comma, .openParen].contains current)) ⟨1, 0⟩

/-! ### Behind a closing token -/

/-- Whether the token at `i` is the closing token of a unit that was put on a line of its own. -/
def closesUnit (i : Nat) (current : TokenKind) (m : Memory) : Bool :=
  m.closed? == some i && current.isClosing

def quantifierDemand (i : Nat) (current next : TokenKind) (m : Memory) : Demand :=
  when (m.postponed && current.isQuantifier) ⟨1, 0⟩ ++
  when (closesUnit i current m && !next.isQuantifier) ⟨1, 0⟩

/-! ### The grammar -/

/-- The end of the regular expression that the colon at `i` declares, if it needs several lines. -/
def declarationEnd? (s : TokenStream) (i : Nat) (c : Scope) : Option Nat :=
  if s.kind i == .colon && c.innermost?.any (fun a => a.declares && a.parens == c.parens) then
    (s.anglePartner? i).filter (s.hasChoiceOrGroup i)
  else none

/-- The end of the unit that opens at `i`, if it needs several lines. -/
def unitEnd? (s : TokenStream) (i : Nat) : Option Nat :=
  if (s.kind i).isOpening && !(s.kindBefore i).isCallLike then s.multiChoice? i else none

def grammarDemand (s : TokenStream) (i : Nat) (c : Scope) : Demand :=
  let current := s.kind i
  let next := s.kind (i + 1)
  when (current == .colon && c.braces == 0) ⟨1, 0⟩ ++
  when (declarationEnd? s i c).isSome ⟨1, 1⟩ ++
  when (next.isOpening && current != .bar && !current.isCallLike &&
    (s.multiChoice? (i + 1)).isSome) ⟨1, 0⟩ ++
  when (unitEnd? s i).isSome ⟨1, 1⟩ ++
  when (next == .bar) ⟨1, -1⟩ ++
  when (current == .bar) ⟨0, 1⟩

/-- The closing tokens to wait for after the token at `i`, those that were passed left out. -/
def closersAfter (s : TokenStream) (i : Nat) (c : Scope) (m : Memory) : List Nat :=
  let opened := if c.inGrammar then (declarationEnd? s i c <|> unitEnd? s i).toList else []
  (opened ++ m.closers).dropWhile (· < i + 1)

/-! ### The decision -/

/-- The gap after the token at `i`, where `c` is the scope after it. Inside a lookahead constraint
only the frame and the spaces count. -/
def gapAfter (s : TokenStream) (i : Nat) (c : Scope) (m : Memory) : Gap × Memory :=
  let current := s.kind i
  let next := s.kind (i + 1)
  let frame := frameDemand current c m
  let m := { m with deferred? := deferredAfter current c m }
  let (demand, m) :=
    if c.inLookahead then (frame, m)
    else
      let closers := closersAfter s i c m
      let closing := closers.head? == some (i + 1)
      (frame ++ generalDemand current next c ++ quantifierDemand i current next m ++
        when c.inGrammar (grammarDemand s i c) ++ when closing ⟨1, -1⟩,
       { m with
         closers := if closing then closers.tail else closers
         closed? := if closing then some (i + 1) else m.closed?.filter (· != i)
         postponed := closesUnit i current m && next.isQuantifier })
  ({ newlines := demand.breaks
     indent := demand.indent
     space := demand.breaks == 0 && spaced s i c }, m)

end Layout

end GrammarFormat
