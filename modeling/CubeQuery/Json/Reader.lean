import CubeQuery.Json.Value

/-!
Reading JSON text. The grammar is the strict one: no comments, no commas before a closing bracket,
no control characters in strings.
-/

namespace CubeQuery

namespace JsonValue

def isSpace (c : Char) : Bool :=
  c = ' ' || c = '\n' || c = '\t' || c = '\r'

def skipSpace (cs : List Char) : List Char :=
  cs.dropWhile isSpace

/-! ### Strings -/

def hexDigit? (c : Char) : Option Nat :=
  if c.isDigit then some (c.toNat - 48)
  else if 'a' ≤ c && c ≤ 'f' then some (c.toNat - 87)
  else if 'A' ≤ c && c ≤ 'F' then some (c.toNat - 55)
  else none

def escape? : Char → Option Char
  | '"' => some '"'
  | '\\' => some '\\'
  | '/' => some '/'
  | 'b' => some '\x08'
  | 'f' => some '\x0c'
  | 'n' => some '\n'
  | 'r' => some '\r'
  | 't' => some '\t'
  | _ => none

/-- A part of a string: a character, or a 16-bit unit that an escape names. -/
inductive StringPart
  | char (c : Char)
  | unit (n : Nat)

/-- The parts of a string up to its closing quote, and the rest of the text. -/
def stringParts? : List Char → Option (List StringPart × List Char)
  | [] => none
  | '"' :: rest => some ([], rest)
  | '\\' :: 'u' :: a :: b :: c :: d :: rest => do
    let n := ((← hexDigit? a) * 16 + (← hexDigit? b)) * 256 + (← hexDigit? c) * 16 + (← hexDigit? d)
    let (parts, rest) ← stringParts? rest
    return (.unit n :: parts, rest)
  | '\\' :: e :: rest => do
    let c ← escape? e
    let (parts, rest) ← stringParts? rest
    return (.char c :: parts, rest)
  | c :: rest => do
    if c < ' ' || c == '\\' then none
    else
      let (parts, rest) ← stringParts? rest
      return (.char c :: parts, rest)

/-- The text of the parts. Units of the surrogate range must come in pairs. -/
def joinParts? : List StringPart → Option (List Char)
  | [] => some []
  | .char c :: parts => (joinParts? parts).map (c :: ·)
  | .unit n :: parts =>
    if n < 0xD800 ∨ 0xDFFF < n then (joinParts? parts).map (Char.ofNat n :: ·)
    else if n < 0xDC00 then
      match parts with
      | .unit m :: parts =>
        if 0xDC00 ≤ m ∧ m ≤ 0xDFFF then
          let c := Char.ofNat (0x10000 + (n - 0xD800) * 0x400 + (m - 0xDC00))
          (joinParts? parts).map (c :: ·)
        else none
      | _ => none
    else none

def string? (cs : List Char) : Option (Option String × List Char) := do
  let (parts, rest) ← stringParts? cs
  return ((joinParts? parts).map String.ofList, rest)

/-! ### Numbers -/

/-- One or more digits. -/
def digits? (cs : List Char) : Option (List Char × List Char) :=
  let digits := cs.takeWhile Char.isDigit
  if digits = [] then none else some (digits, cs.dropWhile Char.isDigit)

/-- A zero, or digits that do not start with one. -/
def integer? : List Char → Option (List Char × List Char)
  | '0' :: rest => if rest.head?.any Char.isDigit then none else some (['0'], rest)
  | cs => digits? cs

def fraction? : List Char → Option (List Char × List Char)
  | '.' :: rest => (digits? rest).map fun (digits, rest) => ('.' :: digits, rest)
  | cs => some ([], cs)

def exponent? : List Char → Option (List Char × List Char)
  | [] => some ([], [])
  | c :: rest =>
    if c = 'e' ∨ c = 'E' then
      let sign := rest.takeWhile (fun d => d = '+' || d = '-') |>.take 1
      (digits? (rest.drop sign.length)).map fun (digits, rest) => (c :: sign ++ digits, rest)
    else some ([], c :: rest)

def number? (cs : List Char) : Option (String × List Char) := do
  let sign := if cs.head? = some '-' then ['-'] else []
  let (whole, rest) ← integer? (cs.drop sign.length)
  let (fraction, rest) ← fraction? rest
  let (exponent, rest) ← exponent? rest
  return (String.ofList (sign ++ whole ++ fraction ++ exponent), rest)

/-! ### Documents -/

mutual

/-- A value and the rest of the text. Every step into a value takes one of `steps`. -/
def value? (steps : Nat) (cs : List Char) : Option (JsonValue × List Char) :=
  match steps with
  | 0 => none
  | steps + 1 =>
    match skipSpace cs with
    | 'n' :: 'u' :: 'l' :: 'l' :: rest => some (null, rest)
    | 't' :: 'r' :: 'u' :: 'e' :: rest => some (boolean true, rest)
    | 'f' :: 'a' :: 'l' :: 's' :: 'e' :: rest => some (boolean false, rest)
    | '"' :: rest => (string? rest).map fun (s?, rest) => (string s?, rest)
    | '[' :: rest =>
      match skipSpace rest with
      | ']' :: rest => some (array [], rest)
      | rest => (items? steps rest).map fun (items, rest) => (array items, rest)
    | '\x7b' :: rest =>
      match skipSpace rest with
      | '\x7d' :: rest => some (object [], rest)
      | rest => (fields? steps rest).map fun (fields, rest) => (object fields, rest)
    | cs => (number? cs).map fun (literal, rest) => (number literal, rest)

/-- The items of an array up to its closing bracket. -/
def items? (steps : Nat) (cs : List Char) : Option (List JsonValue × List Char) :=
  match steps with
  | 0 => none
  | steps + 1 => do
    let (item, rest) ← value? steps cs
    match skipSpace rest with
    | ',' :: rest =>
      let (items, rest) ← items? steps rest
      return (item :: items, rest)
    | ']' :: rest => return ([item], rest)
    | _ => none

/-- The fields of an object up to its closing brace. -/
def fields? (steps : Nat) (cs : List Char) :
    Option (List (Option String × JsonValue) × List Char) :=
  match steps with
  | 0 => none
  | steps + 1 =>
    match skipSpace cs with
    | '"' :: rest => do
      let (name?, rest) ← string? rest
      match skipSpace rest with
      | ':' :: rest =>
        let (value, rest) ← value? steps rest
        match skipSpace rest with
        | ',' :: rest =>
          let (fields, rest) ← fields? steps rest
          return ((name?, value) :: fields, rest)
        | '\x7d' :: rest => return ([(name?, value)], rest)
        | _ => none
      | _ => none
    | _ => none

end

/-- The document that a whole text is. Each character allows for one step into a value and one
past it. -/
def ofText? (text : String) : Option JsonValue := do
  let cs := text.toList
  let (value, rest) ← value? (2 * cs.length + 2) cs
  if skipSpace rest = [] then return value else none

end JsonValue

end CubeQuery
