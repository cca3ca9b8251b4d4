/-!
Sets of row numbers below a bound, one bit for each row. Row 0 is the lowest bit of the first word.
The bits beyond the bound stay clear, and the number of selected rows is kept beside the words.

The rows of a table are held in memory, so that their number is far from the end of machine words.
Where any machine word may be the bound, the number of words is reckoned with machine words as well.
-/

namespace CubeQuery

structure RowSet where
  words : Array UInt64
  /-- The number of rows, selected or not. -/
  length : Nat
  /-- The number of selected rows. -/
  count : Nat
  deriving DecidableEq

namespace RowSet

/-- The number of words for so many rows, one for every 64 rows or part of them. -/
def wordCount (length : Nat) : Nat :=
  (length + 63) / 64

/-- The number of words for a bound that is a machine word. The sum is a machine word too, and
starts again at zero for the last 63 bounds; a set with such a bound has no word to look up a row
in. -/
def wordsOf (length : UInt64) : Nat :=
  ((length + 63) / 64).toNat

/-- Whether a bit of a word is set. -/
def bit (word : UInt64) (i : Nat) : Bool :=
  word.toNat.testBit i

/-- The number of set bits of a word. -/
def population (word : UInt64) : Nat :=
  (List.range 64).countP (bit word)

/-- The position of the lowest set bit of a word; 64 if none is set. -/
def lowest (word : UInt64) : Nat :=
  (List.range 64).findIdx (bit word)

/-- The word without its lowest set bit. -/
def clearLowest (word : UInt64) : UInt64 :=
  word &&& (word - 1)

theorem clearLowest_lt {word : UInt64} (h : word ≠ 0) : (clearLowest word).toNat < word.toNat := by
  have hpos : 1 ≤ word := by
    rw [UInt64.le_iff_toNat_le, UInt64.toNat_one]
    exact Nat.pos_of_ne_zero fun hzero => h (UInt64.toNat_inj.1 hzero)
  have hsub : (word - 1).toNat = word.toNat - 1 := UInt64.toNat_sub_of_le _ _ hpos
  have hle : (clearLowest word).toNat ≤ (word - 1).toNat := by
    rw [clearLowest, UInt64.toNat_and]
    exact Nat.and_le_right
  rw [UInt64.le_iff_toNat_le, UInt64.toNat_one] at hpos
  omega

/-- The positions of the set bits of a word. The lowest one is taken off until none is left. -/
def positions (word : UInt64) : List Nat :=
  if word = 0 then [] else lowest word :: positions (clearLowest word)
termination_by word.toNat
decreasing_by exact clearLowest_lt ‹_›

/-- The bits of the last word that stand for rows. -/
def tailMask (length : Nat) : UInt64 :=
  if length % 64 = 0 then -1 else (1 <<< UInt64.ofNat (length % 64)) - 1

def total (words : Array UInt64) : Nat :=
  words.foldl (fun rows word => rows + population word) 0

/-- No row, in so many words. -/
def blank (words length : Nat) : RowSet :=
  { words := Array.replicate words 0, length, count := 0 }

/-- Every row, in so many words. -/
def filled (words length : Nat) : RowSet :=
  { words := (Array.replicate words (-1)).modify (words - 1) (· &&& tailMask length)
    length, count := length }

def empty (length : Nat) : RowSet :=
  blank (wordCount length) length

def full (length : Nat) : RowSet :=
  filled (wordCount length) length

def contains (s : RowSet) (row : Nat) : Bool :=
  row < s.length && bit (s.words.getD (row / 64) 0) (row % 64)

/-- Adds a row below the bound; other numbers change nothing. -/
def insert (s : RowSet) (row : Nat) : RowSet :=
  if row < s.length && !s.contains row then
    { s with
      words := s.words.modify (row / 64) (· ||| (1 <<< UInt64.ofNat (row % 64)))
      count := s.count + 1 }
  else s

/-- The rows of a list that lie below the bound. -/
def ofRows (length : Nat) (rows : List Nat) : RowSet :=
  rows.foldl insert (empty length)

/-! ### Bounds that are machine words -/

def emptyOf (length : UInt64) : RowSet :=
  blank (wordsOf length) length.toNat

def fullOf (length : UInt64) : RowSet :=
  filled (wordsOf length) length.toNat

/-- The rows of a list that lie below the bound. -/
def selectOf (length : UInt64) (rows : List Nat) : RowSet :=
  rows.foldl insert (emptyOf length)

/-! ### Sets with the same bound -/

/-- The rows in both sets, which must have the same bound. -/
def inter (s t : RowSet) : RowSet :=
  let words := s.words.zipWith (· &&& ·) t.words
  { s with words, count := total words }

/-- The rows in either set, which must have the same bound. -/
def union (s t : RowSet) : RowSet :=
  let words := s.words.zipWith (· ||| ·) t.words
  { s with words, count := total words }

def isEmpty (s : RowSet) : Bool :=
  s.count == 0

/-- The selected rows in ascending order. -/
def toList (s : RowSet) : List Nat :=
  s.words.toList.zipIdx.flatMap fun (word, i) => (positions word).map (64 * i + ·)

end RowSet

end CubeQuery
