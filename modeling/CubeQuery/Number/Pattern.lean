import CubeQuery.Number.Fixed
import CubeQuery.Number.Plain
import CubeQuery.Text.Blank
import CubeQuery.Text.Caseless

/-!
Number formats: a few by name, all others as patterns of `#`, `0`, `,`, `.` and `%` with text
around them. A second pattern after a semicolon is for negative numbers.
-/

namespace CubeQuery.Number

/-- One section of a format: the text around the number and the shape of the number itself. -/
structure Pattern where
  before : List Char
  after : List Char
  /-- Commas between groups of three digits. -/
  grouping : Bool
  integerZeros : Nat
  /-- Decimal places that are always written. -/
  fractionZeros : Nat
  /-- Decimal places that are written at most. -/
  fractionSigns : Nat
  percent : Bool
  deriving DecidableEq

/-- The signs that stand for the number. -/
def isNumberSign (c : Char) : Bool :=
  c = '#' || c = '0' || c = ',' || c = '.'

/-- The first run of number signs is the number; what is on either side of it is literal, and the
first point divides the run. -/
def Pattern.ofChars (cs : List Char) : Pattern :=
  let before := cs.takeWhile (!isNumberSign ·)
  let rest := cs.dropWhile (!isNumberSign ·)
  let run := rest.takeWhile isNumberSign
  let after := rest.dropWhile isNumberSign
  let integer := run.takeWhile (· ≠ '.')
  let fraction := run.dropWhile (· ≠ '.')
  { before, after
    grouping := integer.contains ','
    integerZeros := integer.count '0'
    fractionZeros := fraction.count '0'
    fractionSigns := fraction.count '0' + fraction.count '#'
    percent := before.contains '%' || after.contains '%' }

/-- Commas between groups of three, counted from the right. -/
def groupThousands : List Char → List Char
  | [] => []
  | c :: cs =>
    if cs ≠ [] ∧ cs.length % 3 = 0 then c :: ',' :: groupThousands cs else c :: groupThousands cs

/-- Drops zeros from the end while more than `least` characters are left. -/
def trimZeros (least : Nat) (cs : List Char) : List Char :=
  let zeros := (cs.reverse.takeWhile (· = '0')).length
  cs.take (cs.length - min zeros (cs.length - least))

/-- Digits before and after the point of the absolute value; a scaled value may be infinite. -/
def magnitudeDigits (places : Nat) (x : Float) : List Char × List Char :=
  match reading x with
  | .finite _ magnitude => fixedDigits places (magnitude.unitsAt places)
  | .infinite _ => ("inf".toList, [])
  | .notANumber => ("NaN".toList, [])

/-- The number in the shape of the pattern. A minus sign goes in front of the literal text, and
only if a digit other than zero is left after rounding. -/
def Pattern.render (p : Pattern) (x : Float) (withSign : Bool) : String :=
  let scaled := if p.percent then x * 100.0 else x
  let (whole, places) := magnitudeDigits p.fractionSigns scaled
  let fraction := trimZeros p.fractionZeros places
  let stripped := whole.dropWhile (· = '0')
  let padded := List.replicate (p.integerZeros - stripped.length) '0' ++ stripped
  let integer := if p.grouping then groupThousands padded else padded
  let showsDigit := integer.any (fun c => c.isDigit && c ≠ '0') || fraction.any (· ≠ '0')
  let sign := if withSign && scaled < 0.0 && showsDigit then ['-'] else []
  let point := if fraction = [] then [] else ['.']
  String.ofList (sign ++ p.before ++ integer ++ point ++ fraction ++ p.after)

/-- The patterns that have names. -/
def namedPattern? (format : String) : Option String :=
  match Text.caseless (Text.trim format) with
  | "standard" => some "#,##0.00"
  | "fixed" => some "0.00"
  | "percent" => some "0.00%"
  | "currency" => some "$#,##0.00"
  | _ => none

/-- Formats that ask for the plain text of a number. -/
def isGeneral (format : String) : Bool :=
  let name := Text.caseless (Text.trim format)
  name == "" || name == "general number"

/-- The section for positive numbers and the one for negative numbers, if it is there. -/
def sections (pattern : List Char) : List Char × Option (List Char) :=
  let rest := pattern.dropWhile (· ≠ ';')
  (pattern.takeWhile (· ≠ ';'),
    if rest = [] then none else some (rest.tail.takeWhile (· ≠ ';')))

/-- The number in the given format. Infinities and what is not a number take the plain text. -/
def formatNumber (x : Float) (format : String) : String :=
  if !x.isFinite || isGeneral format then generalText x
  else
    match sections ((namedPattern? format).getD format).toList with
    | (positive, some negative) =>
      if x < 0.0 && negative ≠ [] then (Pattern.ofChars negative).render (-x) false
      else (Pattern.ofChars positive).render x true
    | (positive, none) => (Pattern.ofChars positive).render x true

/-- A number that may be absent; nothing is written for none. -/
def formatValue (x? : Option Float) (format : String) : String :=
  match x? with
  | some x => formatNumber x format
  | none => ""

end CubeQuery.Number
