/-!
# Sample grammars

Three grammar files to try the formatter on: a calculator with every section of a header, a grammar
with node annotations, and one with lexical states and much embedded Java.
-/

namespace GrammarFormat

inductive Sample where
  | calculator | nodes | lexerStates
  deriving DecidableEq, Repr

namespace Sample

def all : List Sample := [calculator, nodes, lexerStates]

def name : Sample → String
  | calculator => "Calculator"
  | nodes => "Nodes"
  | lexerStates => "LexerStates"

def ofName? (name : String) : Option Sample :=
  all.find? (·.name == name)

def fileName : Sample → String
  | calculator => "calculator.jj"
  | nodes => "nodes.jjt"
  | lexerStates => "lexer_states.jj"

def calculatorLines : List String :=
  ["/* A four-function calculator. */",
   "options \x7b",
   "  STATIC = false;",
   "  LOOKAHEAD = 1;",
   "\x7d",
   "",
   "PARSER_BEGIN(Calculator)",
   "package demo.calc;",
   "",
   "import java.io.StringReader;",
   "",
   "public class Calculator \x7b",
   "  public static void main(String[] args) throws ParseException \x7b",
   "    Calculator parser = new Calculator(new StringReader(args[0]));",
   "    System.out.println(parser.Start());",
   "  \x7d",
   "\x7d",
   "PARSER_END(Calculator)",
   "",
   "SKIP : \x7b \" \" | \"\\t\" | \"\\n\" | \"\\r\" \x7d",
   "",
   "TOKEN : \x7b",
   "  < NUMBER : (<DIGIT>)+ ( \".\" (<DIGIT>)+ )? >",
   "| < #DIGIT : [\"0\"-\"9\"] >",
   "| < PLUS : \"+\" > | < MINUS : \"-\" >",
   "\x7d",
   "",
   "double Start() : \x7b double value; \x7d",
   "\x7b",
   "  value = Sum() <EOF> \x7b return value; \x7d",
   "\x7d",
   "",
   "double Sum() : \x7b double left, right; \x7d",
   "\x7b",
   "  left = Term()",
   "  ( ( \"+\" right = Term() \x7b left += right; \x7d | \"-\" right = Term() \x7b left -= right; \x7d ) )*",
   "  \x7b return left; \x7d",
   "\x7d",
   "",
   "double Term() : \x7b Token t; \x7d",
   "\x7b",
   "  t = <NUMBER> \x7b return Double.parseDouble(t.image); \x7d",
   "  | LOOKAHEAD(2) \"(\" Sum() \")\" \x7b return 0; \x7d // grouping",
   "\x7d"]

def nodesLines : List String :=
  ["options \x7b MULTI = true; NODE_DEFAULT_VOID = true; \x7d",
   "PARSER_BEGIN(Expr) public class Expr \x7b\x7d PARSER_END(Expr)",
   "TOKEN : \x7b < ID : [\"a\"-\"z\",\"A\"-\"Z\"] ([\"a\"-\"z\",\"0\"-\"9\"])* > \x7d",
   "void Start() #Start : \x7b\x7d \x7b Expression() <EOF> \x7d",
   "void Expression() : \x7b\x7d \x7b ( Identifier() #Leaf | \"(\" Expression() \")\" #Group(1) ) [ \",\" Expression() #Pair(2) ] \x7d",
   "void Identifier() : \x7b Token t; \x7d \x7b t = <ID> \x7b jjtThis.setName(t.image); \x7d \x7d"]

def lexerStatesLines : List String :=
  ["PARSER_BEGIN(States)",
   "class States \x7b",
   "  int depth;",
   "\x7d",
   "PARSER_END(States)",
   "",
   "TOKEN_MGR_DECLS : \x7b",
   "  int commentDepth = 0;",
   "  void reset() \x7b for (int i = 0; i < 3; i++) \x7b commentDepth = i; \x7d \x7d",
   "\x7d",
   "",
   "<DEFAULT, IN_COMMENT> SKIP : \x7b \"/*\" : IN_COMMENT \x7d",
   "<IN_COMMENT> MORE : \x7b < ~[] > \x7d",
   "SPECIAL_TOKEN : \x7b < LINE : \"//\" (~[\"\\n\",\"\\r\"])* > \x7d",
   "",
   "JAVACODE void skipTo(int kind) \x7b",
   "  Token t;",
   "  do \x7b t = getNextToken(); \x7d while (t.kind != kind);",
   "\x7d",
   "",
   "void Block() : \x7b\x7d \x7b LOOKAHEAD(\x7b getToken(1).kind == LINE \x7d) <LINE> | Block() \x7d"]

/-- The text of a sample file. -/
def source (sample : Sample) : String :=
  let lines :=
    match sample with
    | calculator => calculatorLines
    | nodes => nodesLines
    | lexerStates => lexerStatesLines
  String.join (lines.map (· ++ "\n"))

end Sample

end GrammarFormat
