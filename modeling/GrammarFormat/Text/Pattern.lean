/-!
# Regular patterns and the longest match

A `Pattern` describes a set of texts (`Matches`). `derive c p` describes what may follow `c` in a
text of `p`, so that a list of patterns can be followed through a text one character at a time:
`longest?` goes on as long as some pattern is alive, and answers with the last point at which one
of them was complete.
-/

namespace GrammarFormat

inductive Pattern where
  /-- No text at all. -/
  | never
  /-- The empty text. -/
  | empty
  /-- One character of a class. -/
  | one (accepts : Char → Bool)
  | seq (first second : Pattern)
  | alt (left right : Pattern)
  | star (body : Pattern)

namespace Pattern

/-- The texts that a pattern describes. -/
inductive Matches : Pattern → List Char → Prop
  | empty : Matches .empty []
  | one {accepts : Char → Bool} {c : Char} (h : accepts c = true) : Matches (.one accepts) [c]
  | seq {p q : Pattern} {s t : List Char} (hp : Matches p s) (hq : Matches q t) :
      Matches (.seq p q) (s ++ t)
  | left {p q : Pattern} {s : List Char} (h : Matches p s) : Matches (.alt p q) s
  | right {p q : Pattern} {s : List Char} (h : Matches q s) : Matches (.alt p q) s
  | starNil {p : Pattern} : Matches (.star p) []
  | starCons {p : Pattern} {s t : List Char} (hp : Matches p s) (ht : Matches (.star p) t) :
      Matches (.star p) (s ++ t)

instance : Append Pattern := ⟨seq⟩

instance : OrOp Pattern := ⟨alt⟩

/-- The characters of `text`, in order. -/
def literal : List Char → Pattern
  | [] => empty
  | [c] => one (· == c)
  | c :: rest => one (· == c) ++ literal rest

def optional (p : Pattern) : Pattern := p ||| empty

/-- One or more. -/
def plus (p : Pattern) : Pattern := p ++ star p

/-- One of the characters of `chars`. -/
def oneOf (chars : String) : Pattern :=
  one fun c => chars.toList.contains c

/-! ### Derivatives -/

/-- Whether the empty text matches. -/
def nullable : Pattern → Bool
  | never => false
  | empty => true
  | one _ => false
  | seq p q => p.nullable && q.nullable
  | alt p q => p.nullable || q.nullable
  | star _ => true

/-- `seq`, with `never` and `empty` on the left worked out. -/
def andThen : Pattern → Pattern → Pattern
  | never, _ => never
  | empty, q => q
  | p, q => seq p q

/-- `alt`, with `never` on either side worked out. -/
def orElse : Pattern → Pattern → Pattern
  | never, q => q
  | p, never => p
  | p, q => alt p q

/-- What may follow `c` in a text of the pattern. -/
def derive (c : Char) : Pattern → Pattern
  | never => never
  | empty => never
  | one accepts => if accepts c then empty else never
  | seq p q =>
    if p.nullable then ((derive c p).andThen q).orElse (derive c q) else (derive c p).andThen q
  | alt p q => (derive c p).orElse (derive c q)
  | star p => (derive c p).andThen (star p)

def isNever : Pattern → Bool
  | never => true
  | _ => false

/-! ### The longest match -/

variable {α : Type}

/-- The patterns that can still match after `c`. -/
def follow (c : Char) (live : List (α × Pattern)) : List (α × Pattern) :=
  (live.map fun (a, p) => (a, p.derive c)).filter fun (_, p) => !p.isNever

/-- The pattern with the longest non-empty match at the head of a text, and the length of that
match. Of several patterns with a match of that length it is the first. -/
def longest? : List (α × Pattern) → List Char → Option (α × Nat)
  | [], _ => none
  | _, [] => none
  | live, c :: rest =>
    let live := follow c live
    match longest? live rest with
    | some (a, n) => some (a, n + 1)
    | none => (live.find? fun (_, p) => p.nullable).map fun (a, _) => (a, 1)

theorem longest?_pos {rules : List (α × Pattern)} {s : List Char} {a : α} {n : Nat}
    (h : longest? rules s = some (a, n)) : 0 < n := by
  unfold longest? at h
  split at h
  · cases h
  · cases h
  · dsimp only at h
    split at h
    · cases h; omega
    · obtain ⟨_, _, hn⟩ := Option.map_eq_some_iff.1 h
      cases hn; omega

end Pattern

end GrammarFormat
