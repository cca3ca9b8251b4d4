import CubeQuery.Language.Fault
import CubeQuery.Number.Decimal
import CubeQuery.Text.Blank
import CubeQuery.Text.Letter

/-!
Query text as a sequence of tokens with their places. Text is measured in characters while it is
read; positions are counted in bytes of the query, by a width for each character.
-/

namespace CubeQuery.Language

open CubeQuery.Text CubeQuery.Number

structure Lexeme where
  token : Token
  /-- Position in the query. -/
  start : Nat
  /-- The characters it is written with. -/
  text : String
  deriving DecidableEq

/-- The tokens of a text, up to its end or up to what cannot be read. -/
inductive Lexemes
  | finish (position : Nat)
  | broken (error : SyntaxError)
  | cons (head : Lexeme) (rest : Lexemes)

/-! ### What stands between tokens -/

/-- The length of a comment's remainder with its closing mark. -/
def commentEnd? : List Char → Option Nat
  | [] => none
  | c :: cs =>
    if c = '*' ∧ cs.head? = some '/' then some 2 else (commentEnd? cs).map (· + 1)

/-- The length of the one blank or comment that a text starts with, 0 if it starts with neither.
A block comment that is never closed is no comment. -/
def gapUnit : List Char → Nat
  | '-' :: '-' :: cs => 2 + (cs.takeWhile (· ≠ '\n')).length
  | '/' :: '/' :: cs => 2 + (cs.takeWhile (· ≠ '\n')).length
  | '/' :: '*' :: cs => ((commentEnd? cs).map (2 + ·)).getD 0
  | c :: _ => if isBlank c then 1 else 0
  | [] => 0

/-- The length of all the blanks and comments that a text starts with. -/
def gapLength (cs : List Char) : Nat :=
  if h : gapUnit cs = 0 ∨ cs = [] then 0
  else
    have shorter : (cs.drop (gapUnit cs)).length < cs.length := by
      have := List.length_pos_iff.2 fun nil => h (.inr nil)
      have : gapUnit cs ≠ 0 := fun zero => h (.inl zero)
      simp only [List.length_drop]
      omega
    gapUnit cs + gapLength (cs.drop (gapUnit cs))
termination_by cs.length

/-! ### Tokens -/

def isWordStart (c : Char) : Bool :=
  isLetter c || c == '_'

def isWordPart (c : Char) : Bool :=
  isLetter c || isNumeral c || c == '_' || c == '$'

/-- Text up to a closing mark, with the number of characters it takes; a doubled mark stands for
itself. -/
def enclosed? (close : Char) : List Char → Option (List Char × Nat)
  | [] => none
  | c :: cs =>
    if c = close then
      match cs with
      | [] => some ([], 1)
      | d :: ds =>
        if d = close then (enclosed? close ds).map fun (s, n) => (c :: s, n + 2)
        else some ([], 1)
    else (enclosed? close cs).map fun (s, n) => (c :: s, n + 1)

/-- The exponent that a text starts with and its length, 0 twice if there is none. A mark without
digits is a fault. -/
def exponentAt? : List Char → Option (Int × Nat)
  | [] => some (0, 0)
  | c :: cs =>
    if c = 'e' ∨ c = 'E' then
      let negative := cs.head? == some '-'
      let signed := negative || cs.head? == some '+'
      let digits := (if signed then cs.tail else cs).takeWhile Char.isDigit
      if digits = [] then none
      else
        let size : Int := ofDigits digits
        some (if negative then -size else size, 1 + (if signed then 1 else 0) + digits.length)
    else some (0, 0)

/-- A fault found while reading a token, so many characters after its start. -/
structure TokenFault where
  after : Nat
  fault : SyntaxFault

/-- A number with its length: digits, then places after a point, then an exponent. A point
without digits after it does not belong to the number. -/
def numberAt (cs : List Char) : Except TokenFault (Token × Nat) :=
  let whole := cs.takeWhile Char.isDigit
  let rest := cs.drop whole.length
  let places := if rest.head? = some '.' then rest.tail.takeWhile Char.isDigit else []
  let length := whole.length + if places = [] then 0 else 1 + places.length
  match exponentAt? (cs.drop length) with
  | none => .error ⟨length, .expected .exponentDigits⟩
  | some (exponent, more) =>
    let x := (Decimal.mk (ofDigits (whole ++ places)) (exponent - places.length)).toFloat
    if x.isFinite then .ok (.number x, length + more) else .error ⟨0, .numberTooLarge⟩

/-- A delimited token, its opening mark already read. -/
def delimitedAt (close : Char) (fault : SyntaxFault) (token : String → Token) (cs : List Char) :
    Except TokenFault (Token × Nat) :=
  match enclosed? close cs with
  | some (s, n) => .ok (token (String.ofList s), 1 + n)
  | none => .error ⟨0, fault⟩

/-- The token that starts with `c` and goes on in `cs`, and its length. -/
def tokenAt (c : Char) (cs : List Char) : Except TokenFault (Token × Nat) :=
  if c = '/' ∧ cs.head? = some '*' then .error ⟨0, .unclosedComment⟩
  else
    match Symbol.ofChar? c with
    | some s => .ok (.symbol s, 1)
    | none =>
      if c = '[' then delimitedAt ']' .unclosedName .bracketed cs
      else if c = '"' then delimitedAt '"' .unclosedText .text cs
      else if c = '\'' then delimitedAt '\'' .unclosedQuote .quoted cs
      else if c.isDigit then numberAt (c :: cs)
      else if isWordStart c then
        let word := c :: cs.takeWhile isWordPart
        .ok (.word (String.ofList word), word.length)
      else .error ⟨0, .strayCharacter⟩

/-! ### Sequences -/

/-- The bytes that characters take in the query. -/
def extent (width : Char → Nat) (cs : List Char) : Nat :=
  cs.foldl (fun bytes c => bytes + width c) 0

/-- Faults show this many characters of the text. -/
def shownLength : Nat := 16

/-- The tokens of a text that starts at a position of the query. -/
def scan (width : Char → Nat) (position : Nat) (cs : List Char) : Lexemes :=
  let gap := gapLength cs
  let start := position + extent width (cs.take gap)
  match h : cs.drop gap with
  | [] => .finish start
  | c :: rest =>
    have shorter : rest.length < cs.length := by
      have := congrArg List.length h
      simp only [List.length_drop, List.length_cons] at this
      omega
    match tokenAt c rest with
    | .error e =>
      let place := (c :: rest).drop e.after
      .broken ⟨start + extent width ((c :: rest).take e.after),
        String.ofList (place.take shownLength), e.fault⟩
    | .ok (token, length) =>
      let body := c :: rest.take (length - 1)
      .cons ⟨token, start, String.ofList body⟩
        (scan width (start + extent width body) (rest.drop (length - 1)))
termination_by cs.length
decreasing_by
  simp only [List.length_drop]
  omega

/-- The tokens of a whole query. -/
def Lexemes.ofQuery (text : String) : Lexemes :=
  scan Char.utf8Size 0 text.toList

/-- The tokens of a definition between single quotes, which starts at a position of the query.
Each quote inside it was written twice. -/
def Lexemes.ofQuoted (position : Nat) (text : String) : Lexemes :=
  scan (fun c => if c = '\'' then 2 else c.utf8Size) position text.toList

end CubeQuery.Language
