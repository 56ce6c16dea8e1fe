import GrammarFormat.Token.Bracket

/-!
# Where a token stands

How a token is laid out depends on its place in the grammar file. A `Scope` is followed through a
stream one token at a time; every component has its own rule for what a token does to it.

* A file is a header up to `PARSER_END` and a body of sections and productions behind it.
* `LOOKAHEAD (…)`, the header of a `for` loop and a node annotation `#Name(…)` reach from their word
  to the parenthesis that closes them (`Reach`). Braces inside a lookahead do not count.
* A section of regular expressions has one block, a production two: declarations and expansions.
  Regular expressions and expansions are *grammar*; all other blocks are Java.
-/

namespace GrammarFormat

/-- How far a construct with parentheses reaches: `none` outside of it, else the number of
parentheses that are open in it, which is 0 between its word and the first parenthesis. -/
abbrev Reach := Option Nat

namespace Reach

/-- Inside the parentheses of the construct. -/
def isInside : Reach → Bool
  | some (_ + 1) => true
  | _ => false

/-- The word of the construct has been read. -/
def enter : Reach → Reach
  | none => some 0
  | reach => reach

/-- What a parenthesis does: the one that closes the first leaves the construct. -/
def afterParen : TokenKind → Reach → Reach
  | .openParen, some n => some (n + 1)
  | .closeParen, some 1 => none
  | .closeParen, some (n + 2) => some (n + 1)
  | _, reach => reach

end Reach

/-- What the construct of the body is whose blocks come next. -/
inductive Construct where
  | production | regex | java
  deriving DecidableEq, Repr

inductive Block where
  | java | grammar
  deriving DecidableEq, Repr

/-- An open angle group of the grammar. -/
structure AngleGroup where
  /-- The index of its `<`. -/
  first : Nat
  /-- Whether it declares a regular expression. -/
  declares : Bool
  /-- The number of parentheses open around it. -/
  parens : Nat
  deriving DecidableEq, Repr

structure Scope where
  /-- Behind `PARSER_END`. -/
  body : Bool := false
  lookahead : Reach := none
  forHeader : Reach := none
  node : Reach := none
  /-- The number of open braces. -/
  braces : Nat := 0
  /-- The number of open parentheses. -/
  parens : Nat := 0
  construct : Construct := .production
  /-- What the outermost open block holds, or the last one did. -/
  block : Block := .java
  /-- The open angle groups, the innermost first. -/
  angles : List AngleGroup := []
  deriving DecidableEq, Repr

namespace Scope

def inLookahead (c : Scope) : Bool :=
  c.lookahead.isInside

def inForHeader (c : Scope) : Bool :=
  c.forHeader.isInside

/-- In a header of the body, or right inside a block of regular expressions or expansions. -/
def inGrammar (c : Scope) : Bool :=
  c.body && !c.lookahead.isInside && !c.node.isInside &&
    (c.braces == 0 || (c.braces == 1 && c.block == .grammar))

def inAngle (c : Scope) : Bool :=
  !c.angles.isEmpty

def innermost? (c : Scope) : Option AngleGroup :=
  c.angles.head?

/-! ### What a token does -/

/-- A constraint starts at `LOOKAHEAD` if a parenthesis follows. -/
def lookaheadAfter (kind next : TokenKind) (reach : Reach) : Reach :=
  if kind = .keyword .lookahead ∧ next = .openParen then reach.enter else reach.afterParen kind

def forHeaderAfter (kind : TokenKind) (reach : Reach) : Reach :=
  if kind = .keyword .for then reach.enter else reach.afterParen kind

/-- An annotation is `#`, a name and perhaps parentheses. Anything else behind the `#` ends it, and
so does a colon: then the name was that of a private regular expression. -/
def nodeAfter (kind next : TokenKind) (reach : Reach) : Reach :=
  match kind with
  | .hash => reach.enter
  | .identifier => if reach = some 0 ∧ next ≠ .openParen then none else reach
  | .openParen => reach.afterParen .openParen
  | _ => if reach = some 0 then none else reach.afterParen kind

def parensAfter (kind : TokenKind) (parens : Nat) : Nat :=
  match kind with
  | .openParen => parens + 1
  | .closeParen => parens - 1
  | _ => parens

def bracesAfter (kind : TokenKind) (c : Scope) : Nat :=
  match kind with
  | .openBrace => if c.inLookahead then c.braces else c.braces + 1
  | .closeBrace => if c.inLookahead then c.braces else c.braces - 1
  | _ => c.braces

/-- A section word between blocks says what comes; behind the last block of a construct a
production is expected again. -/
def constructAfter (kind next : TokenKind) (c : Scope) : Construct :=
  match kind with
  | .keyword word =>
    if c.body && c.braces == 0 then
      if word.isRegexSection then .regex else if word.isJavaSection then .java else c.construct
    else c.construct
  | .closeBrace =>
    if !c.inLookahead && c.braces - 1 == 0 && next != .openBrace then .production else c.construct
  | _ => c.construct

/-- The second block of a production, and the block of a section of regular expressions, hold
grammar. -/
def blockFor (construct : Construct) (previous : TokenKind) : Block :=
  match construct with
  | .regex => .grammar
  | .java => .java
  | .production => if previous = .closeBrace then .grammar else .java

def blockAfter (kind previous : TokenKind) (c : Scope) : Block :=
  if kind = .openBrace ∧ !c.inLookahead ∧ c.body ∧ c.braces = 0 then
    blockFor c.construct previous
  else c.block

/-- Angle brackets count in the grammar only, and only those that find a partner. -/
def anglesAfter (s : TokenStream) (i : Nat) (c : Scope) : List AngleGroup :=
  if !c.inGrammar then c.angles
  else match s.kind i with
    | .less =>
      match s.anglePartner? i with
      | some last => ⟨i, s.isDeclaration i last, c.parens⟩ :: c.angles
      | none => c.angles
    | .greater =>
      match c.angles with
      | top :: rest => if top.parens = c.parens then rest else c.angles
      | [] => []
    | _ => c.angles

/-- The scope after the token at `i`. -/
def advance (s : TokenStream) (i : Nat) (c : Scope) : Scope :=
  let kind := s.kind i
  let next := s.kind (i + 1)
  { body := c.body || kind == .keyword .parserEnd
    lookahead := lookaheadAfter kind next c.lookahead
    forHeader := forHeaderAfter kind c.forHeader
    node := nodeAfter kind next c.node
    braces := bracesAfter kind c
    parens := parensAfter kind c.parens
    construct := constructAfter kind next c
    block := blockAfter kind (s.kindBefore i) c
    angles := anglesAfter s i c }

end Scope

end GrammarFormat
