import GrammarFormat.Token.Stream

/-!
# Looking ahead over brackets

What a group holds decides how it is laid out, so layout looks for the partner of a bracket and at
what stands between the two. `partnerFrom` is the one scan behind both kinds of group: parentheses
with square brackets, counted together, and angle brackets.
-/

namespace GrammarFormat.TokenStream

/-- A family of brackets, and the tokens at which a group of it cannot go on. -/
structure Brackets where
  opens : TokenKind → Bool
  closes : TokenKind → Bool
  stops : TokenKind → Bool

/-- Parentheses and square brackets. -/
def rounds : Brackets where
  opens := TokenKind.isOpening
  closes := TokenKind.isClosing
  stops kind := kind == .endOfFile

/-- Angle brackets; a group of them never reaches over a brace or a semicolon. -/
def angles : Brackets where
  opens kind := kind == .less
  closes kind := kind == .greater
  stops
    | .openBrace | .closeBrace | .semicolon | .endOfFile => true
    | _ => false

/-- Among the `left` tokens from `i` on, the closing bracket that ends `depth` open groups. -/
def partnerFrom (s : TokenStream) (b : Brackets) : (left depth i : Nat) → Option Nat
  | 0, _, _ => none
  | left + 1, depth, i =>
    if b.opens (s.kind i) then s.partnerFrom b left (depth + 1) (i + 1)
    else if b.closes (s.kind i) then
      match depth with
      | 0 => none
      | 1 => some i
      | depth + 2 => s.partnerFrom b left (depth + 1) (i + 1)
    else if b.stops (s.kind i) then none
    else s.partnerFrom b left depth (i + 1)

/-- The partner of the parenthesis or square bracket at `i`. -/
def roundPartner? (s : TokenStream) (i : Nat) : Option Nat :=
  s.partnerFrom rounds (s.size - i) 0 i

/-- The end of the angle group that opens at `i`, or that `i` stands in. -/
def anglePartner? (s : TokenStream) (i : Nat) : Option Nat :=
  s.partnerFrom angles (s.size - i) (if s.kind i = .less then 0 else 1) i

/-! ### What a group holds -/

/-- Whether one of the `left` tokens from `i` on is a colon outside of nested groups, of which
`angle` and `round` ones are open. -/
def colonFrom (s : TokenStream) : (left i angle round : Nat) → Bool
  | 0, _, _, _ => false
  | left + 1, i, angle, round =>
    match s.kind i with
    | .less => s.colonFrom left (i + 1) (angle + 1) round
    | .greater => s.colonFrom left (i + 1) (angle - 1) round
    | .openParen | .openBracket => s.colonFrom left (i + 1) angle (round + 1)
    | .closeParen | .closeBracket => s.colonFrom left (i + 1) angle (round - 1)
    | .colon => (angle == 0 && round == 0) || s.colonFrom left (i + 1) angle round
    | _ => s.colonFrom left (i + 1) angle round

/-- Whether the angle group from `first` to `last` declares a regular expression: it has a colon of
its own, as in `< ID : … >`. References and lists of lexical states have none. -/
def isDeclaration (s : TokenStream) (first last : Nat) : Bool :=
  s.colonFrom (last - (first + 1)) (first + 1) 0 0

/-- Whether a choice or an opening parenthesis stands strictly between `first` and `last`. -/
def hasChoiceOrGroup (s : TokenStream) (first last : Nat) : Bool :=
  (List.range' (first + 1) (last - (first + 1))).any fun i =>
    s.kind i == .bar || s.kind i == .openParen

/-- Whether the `left` tokens from `i` on hold a choice, an optional unit or a nested unit outside
of braces, of which `braces` are open. Parentheses behind a call-like token are no unit. -/
def unitFrom (s : TokenStream) : (left i braces : Nat) → Bool
  | 0, _, _ => false
  | left + 1, i, braces =>
    match s.kind i with
    | .openBrace => s.unitFrom left (i + 1) (braces + 1)
    | .closeBrace => s.unitFrom left (i + 1) (braces - 1)
    | .bar | .openBracket => braces == 0 || s.unitFrom left (i + 1) braces
    | .openParen =>
      (braces == 0 && !(s.kindBefore i).isCallLike) || s.unitFrom left (i + 1) braces
    | _ => s.unitFrom left (i + 1) braces

/-- The end of the unit that opens at `i`, if the unit holds alternatives or nested units and so
needs more than one line. -/
def multiChoice? (s : TokenStream) (i : Nat) : Option Nat :=
  (s.roundPartner? i).filter fun last => s.unitFrom (last - (i + 1)) (i + 1) 0

end GrammarFormat.TokenStream
