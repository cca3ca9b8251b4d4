/-!
The tokens of query text.
-/

namespace CubeQuery.Language

inductive Symbol
  | dot
  | comma
  | semicolon
  | openParen
  | closeParen
  | openBrace
  | closeBrace
  | plus
  | minus
  | star
  | slash
  | equals
  deriving DecidableEq

namespace Symbol

def char : Symbol → Char
  | dot => '.'
  | comma => ','
  | semicolon => ';'
  | openParen => '('
  | closeParen => ')'
  | openBrace => '\x7b'
  | closeBrace => '\x7d'
  | plus => '+'
  | minus => '-'
  | star => '*'
  | slash => '/'
  | equals => '='

def all : List Symbol :=
  [dot, comma, semicolon, openParen, closeParen, openBrace, closeBrace, plus, minus, star, slash,
    equals]

def ofChar? (c : Char) : Option Symbol :=
  all.find? fun s => c == s.char

theorem ofChar?_char (s : Symbol) : ofChar? s.char = some s := by
  cases s <;> decide

end Symbol

inductive Token
  /-- A name or keyword without brackets. -/
  | word (s : String)
  | bracketed (s : String)
  | number (x : Float)
  /-- Text between double quotes. -/
  | text (s : String)
  /-- An expression between single quotes, the older form of a definition. -/
  | quoted (s : String)
  | symbol (s : Symbol)
  deriving DecidableEq

/-- The name that a token is, with or without brackets. -/
def Token.name? : Token → Option String
  | word s | bracketed s => some s
  | _ => none

end CubeQuery.Language
