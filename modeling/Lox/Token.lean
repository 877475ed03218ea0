import Lox.Trie

/-!
# Tokens

The alphabet of the grammar: the kinds of token, the sixteen reserved words, and a token as the
scanner hands it out, with its text and its place.  A reserved word is recognised by following a
letter trie (`Keyword.trie`), never by comparing it with the words one after the other.
-/

namespace Lox

/-- Why a stretch of the source is no token. -/
inductive LexicalFault where
  /-- A character that starts no token. -/
  | unexpectedCharacter
  /-- A string whose closing quote is missing. -/
  | unterminatedString
  deriving DecidableEq, Repr

/-- The words of a lexical fault. -/
def LexicalFault.message : LexicalFault → String
  | .unexpectedCharacter => "Unexpected character."
  | .unterminatedString => "Unterminated string."

/-- The kinds of token. -/
inductive TokenKind where
  -- one character
  | leftParen | rightParen | leftBrace | rightBrace | comma | dot | minus | plus | semicolon | slash
  | star
  -- one or two characters
  | bang | bangEqual | equal | equalEqual | greater | greaterEqual | less | lessEqual
  -- words and literals
  | identifier | string | number
  -- reserved words
  | kwAnd | kwClass | kwElse | kwFalse | kwFor | kwFun | kwIf | kwNil | kwOr | kwPrint | kwReturn
  | kwSuper | kwThis | kwTrue | kwVar | kwWhile
  -- text that is no token, and the end of the source
  | malformed (fault : LexicalFault)
  | endOfInput
  deriving DecidableEq, Repr

/-- A token of a source. -/
structure Token where
  kind : TokenKind
  /-- The text the token covers. -/
  lexeme : String
  /-- The line on which the token ends, counted from one. -/
  line : Nat
  /-- The number of characters of the source before the token. -/
  start : Nat
  deriving DecidableEq, Repr

/-- What to show for a token: its lexeme, or the fault if it is none. -/
def Token.text (t : Token) : String :=
  match t.kind with
  | .malformed fault => fault.message
  | _ => t.lexeme

namespace Keyword

/-- The reserved words. -/
def entries : List (String × TokenKind) :=
  [("and", .kwAnd), ("class", .kwClass), ("else", .kwElse), ("false", .kwFalse), ("for", .kwFor),
   ("fun", .kwFun), ("if", .kwIf), ("nil", .kwNil), ("or", .kwOr), ("print", .kwPrint),
   ("return", .kwReturn), ("super", .kwSuper), ("this", .kwThis), ("true", .kwTrue),
   ("var", .kwVar), ("while", .kwWhile)]

/-- The trie of the reserved words. -/
def trie : Trie TokenKind := Trie.ofList entries

/-- The kind of a word: a reserved word as a whole, or else a name. -/
def kindOf (word : List Char) : TokenKind := (trie.find? word).getD .identifier

end Keyword

end Lox
