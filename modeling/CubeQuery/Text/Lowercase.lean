import CubeQuery.Text.CaseTable

/-!
Lower case for every script. Each character is mapped on its own, with two exceptions: a capital
sigma at the end of a word takes its final form, and a dotted capital I becomes two characters.
-/

namespace CubeQuery.Text

def isCased (c : Char) : Bool :=
  casedRanges.covers c.toNat

def isCaseIgnorable (c : Char) : Bool :=
  caseIgnorableRanges.covers c.toNat

/-- The lower-case partner of one character, or the character itself when it has none. -/
def lowerChar (c : Char) : Char :=
  match caseShifts.find? fun s => c.toNat ≤ s.last with
  | some s =>
    if s.first ≤ c.toNat ∧ (c.toNat - s.first) % s.step = 0 then
      Char.ofNat (c.toNat + s.shift).toNat
    else c
  | none => c

/-- Whether the nearest character that has a say in word boundaries has case. -/
def meetsCased (cs : List Char) : Bool :=
  (cs.dropWhile isCaseIgnorable).head?.any isCased

/-- A capital sigma ends its word when a cased character comes before it and none after it. -/
def lowerSigma (before after : List Char) : Char :=
  if meetsCased before && !meetsCased after then 'ς' else 'σ'

/-- Lower case of a text whose first part, reversed in `before`, has been dealt with. -/
def lowerChars (before : List Char) : List Char → List Char
  | [] => []
  | c :: rest =>
    let image :=
      if c = 'Σ' then [lowerSigma before rest]
      else if c = 'İ' then ['i', '\u0307']
      else [lowerChar c]
    image ++ lowerChars (c :: before) rest

def lowercase (s : String) : String :=
  String.ofList (lowerChars [] s.toList)

end CubeQuery.Text
