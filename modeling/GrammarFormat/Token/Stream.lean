import GrammarFormat.Token.Basic

/-!
# Token streams

The tokens of a file in order, closed by an end mark. Everything that looks around in a stream does
so by index; past the last token there are only end marks.
-/

namespace GrammarFormat

structure TokenStream where
  tokens : Array Token
  closed : tokens.back?.map Token.kind = some .endOfFile

namespace TokenStream

/-- Where an end mark stands behind `tokens`: right after the last one. -/
def endPosition (tokens : Array Token) : Position :=
  match tokens.back? with
  | none => .start
  | some token => { token.last with column := token.last.column + 1 }

/-- The stream of `tokens`, with an end mark added if it has none. -/
def ofTokens (tokens : List Token) : TokenStream :=
  if h : tokens.toArray.back?.map Token.kind = some .endOfFile then ⟨tokens.toArray, h⟩
  else ⟨tokens.toArray.push (.endOfFile (endPosition tokens.toArray)), by simp [Token.endOfFile]⟩

/-- The number of tokens, end marks included. -/
def size (s : TokenStream) : Nat :=
  s.tokens.size

def get? (s : TokenStream) (i : Nat) : Option Token :=
  s.tokens[i]?

/-- The kind of the token at `i`; past the end it is an end mark. -/
def kind (s : TokenStream) (i : Nat) : TokenKind :=
  match s.get? i with
  | some token => token.kind
  | none => .endOfFile

/-- The kind of the token before `i`; an end mark stands before the first one. -/
def kindBefore (s : TokenStream) : Nat → TokenKind
  | 0 => .endOfFile
  | i + 1 => s.kind i

/-- The first token, if it is not an end mark. -/
def first? (s : TokenStream) : Option Token :=
  (s.get? 0).filter fun token => !token.isEnd

def isEmpty (s : TokenStream) : Bool :=
  s.first?.isNone

/-! ### Streams written by hand -/

/-- Tokens given by kind, image and line, one blank apart on each line. -/
def layTokens (pos : Position) : List (TokenKind × String × Nat) → List Token
  | [] => []
  | (kind, image, line) :: rest =>
    let first : Position := if line = pos.line then pos else { line := line }
    .onLine kind image first ::
      layTokens { first with column := first.column + image.length + 1 } rest

def ofLines (tokens : List (TokenKind × String × Nat)) : TokenStream :=
  ofTokens (layTokens { line := 0 } tokens)

end TokenStream

end GrammarFormat
