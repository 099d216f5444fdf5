import Lox.Decimal.Layout
import Lox.Grapheme.Basic
import Lox.Text.Quoted

/-!
# Tokens

A token is a mark, which is spelled one way only, or it carries a text or a number of its own.
Tokens stand at a place in a source.

* `Mark`: punctuation, operators, keywords and the end of the source, each with its spelling.
* `Token`: marks, names, literals, comments and white space.
* `TokenKind`: what a token is, without what it carries.
* `Token.text` is the token as a source spells it, `Token.dump` the token as a dump shows it.
-/

namespace Lox

/-- A token that is always spelled the same. -/
inductive Mark where
  | leftParen | rightParen | leftBrace | rightBrace | comma | dot
  | minus | plus | semicolon | slash | star | question
  | colon | bang | bangEqual | equal | equalEqual | greater
  | greaterEqual | less | lessEqual | andWord | classWord | elseWord
  | falseWord | funWord | forWord | ifWord | nilWord | orWord
  | printWord | returnWord | superWord | thisWord | trueWord | varWord
  | whileWord | endOfFile
  deriving DecidableEq, Repr, Inhabited

namespace Mark

/-- The mark as a source spells it. The end of a source has no spelling; it is called by its name.
-/
def spelling : Mark → String
  | leftParen => "("
  | rightParen => ")"
  | leftBrace => "\x7b"
  | rightBrace => "\x7d"
  | comma => ","
  | dot => "."
  | minus => "-"
  | plus => "+"
  | semicolon => ";"
  | slash => "/"
  | star => "*"
  | question => "?"
  | colon => ":"
  | bang => "!"
  | bangEqual => "!="
  | equal => "="
  | equalEqual => "=="
  | greater => ">"
  | greaterEqual => ">="
  | less => "<"
  | lessEqual => "<="
  | andWord => "and"
  | classWord => "class"
  | elseWord => "else"
  | falseWord => "false"
  | funWord => "fun"
  | forWord => "for"
  | ifWord => "if"
  | nilWord => "nil"
  | orWord => "or"
  | printWord => "print"
  | returnWord => "return"
  | superWord => "super"
  | thisWord => "this"
  | trueWord => "true"
  | varWord => "var"
  | whileWord => "while"
  | endOfFile => "EOF"

/-- The name of the mark in dumps. -/
def name : Mark → String
  | leftParen => "LEFT_PAREN"
  | rightParen => "RIGHT_PAREN"
  | leftBrace => "LEFT_BRACE"
  | rightBrace => "RIGHT_BRACE"
  | comma => "COMMA"
  | dot => "DOT"
  | minus => "MINUS"
  | plus => "PLUS"
  | semicolon => "SEMICOLON"
  | slash => "SLASH"
  | star => "STAR"
  | question => "QUESTION"
  | colon => "COLON"
  | bang => "BANG"
  | bangEqual => "BANG_EQUAL"
  | equal => "EQUAL"
  | equalEqual => "EQUAL_EQUAL"
  | greater => "GREATER"
  | greaterEqual => "GREATER_EQUAL"
  | less => "LESS"
  | lessEqual => "LESS_EQUAL"
  | andWord => "AND"
  | classWord => "CLASS"
  | elseWord => "ELSE"
  | falseWord => "FALSE"
  | funWord => "FUN"
  | forWord => "FOR"
  | ifWord => "IF"
  | nilWord => "NIL"
  | orWord => "OR"
  | printWord => "PRINT"
  | returnWord => "RETURN"
  | superWord => "SUPER"
  | thisWord => "THIS"
  | trueWord => "TRUE"
  | varWord => "VAR"
  | whileWord => "WHILE"
  | endOfFile => "EOF"

/-- The words that are no names. -/
def keywords : List Mark :=
  [.andWord, .classWord, .elseWord, .falseWord, .funWord, .forWord, .ifWord, .nilWord,
    .orWord, .printWord, .returnWord, .superWord, .thisWord, .trueWord, .varWord, .whileWord]

/-- All marks. -/
def all : List Mark :=
  [.leftParen, .rightParen, .leftBrace, .rightBrace, .comma, .dot, .minus, .plus, .semicolon,
    .slash, .star, .question, .colon, .bang, .bangEqual, .equal, .equalEqual, .greater,
    .greaterEqual, .less, .lessEqual, .endOfFile] ++ keywords

/-- The keyword that a text spells. -/
def ofKeyword? (text : String) : Option Mark := keywords.find? (fun m => m.spelling == text)

end Mark

/-- The sorts of white space that a source may hold. -/
inductive Blank where
  | space | tab | carriageReturn | newline | crlf
  deriving DecidableEq, Repr, Inhabited

namespace Blank

/-- The name of the white space in dumps. -/
def name : Blank → String
  | space => "SPACE"
  | tab => "TAB"
  | carriageReturn => "CARRIAGE_RETURN"
  | newline => "NEWLINE"
  | crlf => "CRLF"

/-- All sorts of white space. -/
def all : List Blank := [.space, .tab, .carriageReturn, .newline, .crlf]

/-- The white space that a name in dumps stands for. -/
def ofName? (name : String) : Option Blank := all.find? (fun b => b.name == name)

/-- The white space that a grapheme is. -/
def ofGrapheme? : Grapheme → Option Blank
  | ⟨' ', []⟩ => some .space
  | ⟨'\t', []⟩ => some .tab
  | ⟨'\r', []⟩ => some .carriageReturn
  | ⟨'\n', []⟩ => some .newline
  | ⟨'\r', ['\n']⟩ => some .crlf
  | _ => none

end Blank

/-- What a token is, without what it carries. -/
inductive TokenKind where
  | mark (m : Mark)
  | identifier
  | string
  | number
  | comment
  | whitespace
  deriving DecidableEq, Repr, Inhabited

namespace TokenKind

/-- The name of the kind in dumps. -/
def name : TokenKind → String
  | mark m => m.name
  | identifier => "IDENTIFIER"
  | string => "STRING"
  | number => "NUMBER"
  | comment => "COMMENT"
  | whitespace => "WHITESPACE"

/-- The kind as a diagnostic calls it. -/
def display : TokenKind → String
  | mark m => m.spelling
  | identifier => "Identifier"
  | string => "String"
  | number => "Number"
  | comment => "Comment"
  | whitespace => "Whitespace"

/-- All kinds of tokens. -/
def all : List TokenKind :=
  Mark.all.map mark ++ [.identifier, .string, .number, .comment, .whitespace]

/-- The kind that a name in dumps stands for. -/
def ofName? (name : String) : Option TokenKind := all.find? (fun k => k.name == name)

end TokenKind

/-- A token of the language. -/
inductive Token where
  | mark (m : Mark)
  | identifier (name : String)
  /-- A string literal, without its quotes. -/
  | string (text : String)
  | number (value : Float)
  /-- A comment, with the slashes that open it. -/
  | comment (text : String)
  | whitespace (blank : Blank)
  deriving DecidableEq, Repr

namespace Token

/-- What the token is. -/
def kind : Token → TokenKind
  | mark m => .mark m
  | identifier _ => .identifier
  | string _ => .string
  | number _ => .number
  | comment _ => .comment
  | whitespace _ => .whitespace

/-- The token as a source spells it; white space is called by its name. -/
def text : Token → String
  | mark m => m.spelling
  | identifier name => name
  | string text => "\"" ++ text ++ "\""
  | number value => Layout.plain.write value
  | comment text => text
  | whitespace blank => "Whitespace(" ++ blank.name ++ ")"

/-- The token as a dump shows it: its kind and what it carries. -/
def dump (t : Token) : String :=
  let payload := match t with
    | mark _ => ""
    | identifier text | string text | comment text => ", " ++ Lox.Text.quote text
    | number value => ", " ++ Layout.exact.write value
    | whitespace blank => ", " ++ blank.name
  "Token(" ++ t.kind.name ++ payload ++ ")"

end Token

/-- A token at its place. A token made by hand may have none. -/
structure PlacedToken where
  token : Token
  span : Option Span
  deriving DecidableEq, Repr

namespace PlacedToken

/-- What the token is. -/
def kind (t : PlacedToken) : TokenKind := t.token.kind

/-- The token marks the end of its source. -/
def isEnd (t : PlacedToken) : Bool := t.kind == .mark .endOfFile

/-- Token and place as a dump shows them. -/
def dump (t : PlacedToken) : String :=
  "SourceToken(" ++ t.token.dump ++ ", " ++ (t.span.map Span.position).getD "?" ++ ")"

/-- Token and place, one a line in a listing. -/
def listing (t : PlacedToken) : String :=
  t.token.dump ++ " @ " ++ (t.span.map Span.position).getD "?"

end PlacedToken

end Lox
