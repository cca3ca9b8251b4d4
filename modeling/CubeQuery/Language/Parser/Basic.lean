import CubeQuery.Language.Lexeme

/-!
Reading a sequence of tokens with one token of lookahead. What cannot be read as a token is
reported when it comes up as the next token, not before.
-/

namespace CubeQuery.Language

open CubeQuery.Text

/-- A parser takes tokens from the front and returns what they mean and the remaining tokens. -/
abbrev Parser (α : Type) := Lexemes → Except SyntaxError (α × Lexemes)

namespace Lexemes

/-- The number of tokens that can be read. -/
def size : Lexemes → Nat
  | finish _ | broken _ => 0
  | cons _ rest => rest.size + 1

/-- The next token; there is none at the end. -/
def peek? : Lexemes → Option Token
  | cons l _ => some l.token
  | finish _ | broken _ => none

def position : Lexemes → Nat
  | cons l _ => l.start
  | finish p => p
  | broken e => e.position

/-- A fault at the next token. -/
def fault (s : Lexemes) (f : SyntaxFault) : SyntaxError :=
  match s with
  | cons l _ => ⟨l.start, l.text, f⟩
  | finish p => ⟨p, "end of input", f⟩
  | broken e => e

def fail (s : Lexemes) (f : SyntaxFault) : Except SyntaxError α :=
  .error (s.fault f)

/-- The sequence itself if its next token can be read. -/
def checked : Lexemes → Except SyntaxError Lexemes
  | broken e => .error e
  | s => .ok s

/-- Drops the next token. At the end nothing changes. -/
def advance : Lexemes → Except SyntaxError Lexemes
  | cons _ rest => rest.checked
  | s => s.checked

def startsWith (s : Lexemes) (symbol : Symbol) : Bool :=
  s.peek? == some (.symbol symbol)

/-- Whether the next token is the given word; brackets make a name of any word. -/
def atKeyword (s : Lexemes) (word : String) : Bool :=
  match s.peek? with
  | some (.word w) => sameName w word
  | _ => false

def atEnd (s : Lexemes) : Bool :=
  s.peek?.isNone

def expect (s : Lexemes) (symbol : Symbol) : Except SyntaxError Lexemes :=
  if s.startsWith symbol then s.advance else s.fail (.expected (.symbol symbol))

def expectKeyword (s : Lexemes) (word : String) : Except SyntaxError Lexemes :=
  if s.atKeyword word then s.advance else s.fail (.expected (.keyword word))

end Lexemes

/-- One or more items with commas between them. An item that takes no token would end the list. -/
def separated (item : Parser α) (s : Lexemes) : Except SyntaxError (List α × Lexemes) := do
  let (x, s₁) ← item s
  if s₁.startsWith .comma then
    let s₂ ← s₁.advance
    if s₂.size < s.size then
      let (xs, s₃) ← separated item s₂
      return (x :: xs, s₃)
    else return ([x], s₂)
  else return ([x], s₁)
termination_by s.size

/-- Items for as long as the next token announces one. An item that takes no token would end the
list. -/
def repeated (announced : Lexemes → Bool) (item : Parser α) (s : Lexemes) :
    Except SyntaxError (List α × Lexemes) := do
  if announced s then
    let (x, s₁) ← item s
    if s₁.size < s.size then
      let (xs, s₂) ← repeated announced item s₁
      return (x :: xs, s₂)
    else return ([x], s₁)
  else return ([], s)
termination_by s.size

/-- The names of a path from its first one on. -/
def pathSegments : Parser (List String)
  | .cons l rest =>
    match l.token.name? with
    | none => (Lexemes.cons l rest).fail (.expected .name)
    | some name =>
      match rest with
      | .broken e => .error e
      | .cons next tail =>
        if next.token = .symbol .dot then
          match tail with
          | .broken e => .error e
          | tail => do
            let (names, s) ← pathSegments tail
            return (name :: names, s)
        else .ok ([name], .cons next tail)
      | .finish p => .ok ([name], .finish p)
  | s => s.fail (.expected .name)

def path : Parser Path := fun s => do
  let (segments, s₁) ← pathSegments s
  return (⟨segments, s.position⟩, s₁)

end CubeQuery.Language
