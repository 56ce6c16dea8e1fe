/-!
# Reserved words

The words of grammar files: those of the grammar notation itself (`LOOKAHEAD`, `PARSER_BEGIN`,
`TOKEN`, …) and those of Java, in which declarations and actions are written. Layout asks a word
only which of a few groups it belongs to.
-/

namespace GrammarFormat

inductive Keyword where
  | options | lookahead | ignoreCase | parserBegin | parserEnd | javacode | token | specialToken
  | more | skip | tokenMgrDecls | eof
  | abstract | assert | boolean | «break» | byte | «case» | «catch» | char | «class» | const
  | «continue» | default | «do» | double | «else» | enum | «extends» | falseLit | final
  | «finally» | float | «for» | goto | «if» | implements | «import» | instanceof | int
  | interface | long | native | new | nullLit | package | «private» | «protected» | «public»
  | «return» | short | static | strictfp | super | switch | synchronized | «this» | «throw»
  | throws | transient | trueLit | «try» | void | volatile | «while»
  deriving DecidableEq, Repr

namespace Keyword

/-- Every keyword with its spelling. -/
def spellings : List (Keyword × String) :=
  [(options, "options"), (lookahead, "LOOKAHEAD"), (ignoreCase, "IGNORE_CASE"),
   (parserBegin, "PARSER_BEGIN"), (parserEnd, "PARSER_END"), (javacode, "JAVACODE"),
   (token, "TOKEN"), (specialToken, "SPECIAL_TOKEN"), (more, "MORE"), (skip, "SKIP"),
   (tokenMgrDecls, "TOKEN_MGR_DECLS"), (eof, "EOF"), (abstract, "abstract"), (assert, "assert"),
   (boolean, "boolean"), («break», "break"), (byte, "byte"), («case», "case"),
   («catch», "catch"), (char, "char"), («class», "class"), (const, "const"),
   («continue», "continue"), (default, "default"), («do», "do"), (double, "double"),
   («else», "else"), (enum, "enum"), («extends», "extends"), (falseLit, "false"),
   (final, "final"), («finally», "finally"), (float, "float"), («for», "for"), (goto, "goto"),
   («if», "if"), (implements, "implements"), («import», "import"), (instanceof, "instanceof"),
   (int, "int"), (interface, "interface"), (long, "long"), (native, "native"), (new, "new"),
   (nullLit, "null"), (package, "package"), («private», "private"), («protected», "protected"),
   («public», "public"), («return», "return"), (short, "short"), (static, "static"),
   (strictfp, "strictfp"), (super, "super"), (switch, "switch"), (synchronized, "synchronized"),
   («this», "this"), («throw», "throw"), (throws, "throws"), (transient, "transient"),
   (trueLit, "true"), («try», "try"), (void, "void"), (volatile, "volatile"),
   («while», "while")]

/-- The keyword spelled `word`; letter case counts. -/
def ofWord? (word : String) : Option Keyword :=
  (spellings.find? fun (_, spelling) => spelling == word).map (·.1)

def word (keyword : Keyword) : String :=
  ((spellings.find? fun (k, _) => k == keyword).map (·.2)).getD ""

/-- The parts of a word between underscores, each with a capital and small letters after it. -/
def capitalize (word : List Char) : List Char :=
  go true word
where
  /-- Whether a capital comes next, and the rest of the word. -/
  go : Bool → List Char → List Char
    | _, [] => []
    | _, '_' :: rest => go true rest
    | true, c :: rest => c.toUpper :: go false rest
    | false, c :: rest => c.toLower :: go false rest

/-- The name under which a keyword is reported: `PARSER_BEGIN` is `ParserBegin`. -/
def name (keyword : Keyword) : String :=
  String.ofList (capitalize keyword.word.toList)

def ofName? (name : String) : Option Keyword :=
  (spellings.find? fun (k, _) => k.name == name).map (·.1)

/-! ### Groups of words -/

/-- Words that start a declaration, which gets a blank line in front of it. -/
def isDeclaration : Keyword → Bool
  | «class» | «public» | «private» | «protected» | static | void | synchronized | abstract => true
  | _ => false

/-- Words whose parentheses are an argument list. -/
def isCallLike : Keyword → Bool
  | lookahead | parserBegin | parserEnd | «this» | super => true
  | _ => false

/-- The primitive types of Java. -/
def isPrimitive : Keyword → Bool
  | boolean | byte | char | short | int | long | float | double => true
  | _ => false

/-- Words that open a section of regular expressions. -/
def isRegexSection : Keyword → Bool
  | token | specialToken | skip | more => true
  | _ => false

/-- Words that open a section of plain Java. -/
def isJavaSection : Keyword → Bool
  | tokenMgrDecls | javacode => true
  | _ => false

end Keyword

end GrammarFormat
