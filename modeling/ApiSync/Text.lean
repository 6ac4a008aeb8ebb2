/-!
Text as lists of characters: blanks, trimming, search, splitting, and the order
and length of text measured in 16-bit units.

The functions that cut text lose nothing but what they are named for; the small
lemmas beside them say so.
-/

namespace ApiSync
namespace Text

/-- Space, tab, the line breaks and the other white space of Unicode, and the byte
order mark.  The next-line control and the separators U+001C to U+001F are not
blank. -/
def isBlank (c : Char) : Bool :=
  let n := c.toNat
  n = 0x20 || (0x09 ≤ n && n ≤ 0x0d) || n = 0xa0 || n = 0x1680 || (0x2000 ≤ n && n ≤ 0x200a)
    || n = 0x2028 || n = 0x2029 || n = 0x202f || n = 0x205f || n = 0x3000 || n = 0xfeff

/-- A letter, digit or underscore of ASCII. -/
def isWordChar (c : Char) : Bool := c.isAlphanum || c = '_'

def isUpperAscii (c : Char) : Bool := 'A' ≤ c && c ≤ 'Z'

/-- Lower case for the letters of ASCII; every other character is kept. -/
def lowerAscii (cs : List Char) : List Char := cs.map Char.toLower

def trimStart (cs : List Char) : List Char := cs.dropWhile isBlank

def trimEnd (cs : List Char) : List Char := (cs.reverse.dropWhile isBlank).reverse

def trim (cs : List Char) : List Char := trimEnd (trimStart cs)

/-- The text without `head` in front, if it starts so. -/
def dropPrefix? : List Char → List Char → Option (List Char)
  | [], cs => some cs
  | _ :: _, [] => none
  | h :: hs, c :: cs => if h = c then dropPrefix? hs cs else none

def startsWith (head cs : List Char) : Bool := (dropPrefix? head cs).isSome

def endsWith (tail cs : List Char) : Bool := startsWith tail.reverse cs.reverse

/-- Splits at the first occurrence of `mark`: what stands before it and what after. -/
def cut? (mark : List Char) : List Char → Option (List Char × List Char)
  | [] => if mark = [] then some ([], []) else none
  | c :: cs =>
    match dropPrefix? mark (c :: cs) with
    | some rest => some ([], rest)
    | none => (cut? mark cs).map fun (before, after) => (c :: before, after)

def contains (mark cs : List Char) : Bool := (cut? mark cs).isSome

/-- Pieces between the occurrences of one character; always at least one piece. -/
def splitAt (sep : Char) : List Char → List (List Char)
  | [] => [[]]
  | c :: cs =>
    if c = sep then [] :: splitAt sep cs
    else match splitAt sep cs with
      | [] => [[c]]
      | piece :: pieces => (c :: piece) :: pieces

def joinWith (sep : List Char) : List (List Char) → List Char
  | [] => []
  | [piece] => piece
  | piece :: pieces => piece ++ sep ++ joinWith sep pieces

theorem eq_append_of_dropPrefix? {head cs rest : List Char}
    (h : dropPrefix? head cs = some rest) : cs = head ++ rest := by
  induction head generalizing cs with
  | nil => simpa [dropPrefix?] using h
  | cons c hs ih =>
    cases cs with
    | nil => simp [dropPrefix?] at h
    | cons d ds =>
      by_cases hcd : c = d
      · simp only [dropPrefix?, hcd, if_true] at h
        simp [hcd, ih h]
      · simp [dropPrefix?, hcd] at h

/-- Cutting loses the mark and nothing else. -/
theorem eq_append_of_cut? {mark cs before after : List Char}
    (h : cut? mark cs = some (before, after)) : cs = before ++ mark ++ after := by
  induction cs generalizing before with
  | nil =>
    by_cases hm : mark = []
    · simp [cut?, hm] at h
      simp [h, hm]
    · simp [cut?, hm] at h
  | cons c cs ih =>
    rw [cut?] at h
    split at h
    · next rest hrest =>
      obtain ⟨rfl, rfl⟩ : [] = before ∧ rest = after := by simpa using h
      simpa using eq_append_of_dropPrefix? hrest
    · obtain ⟨⟨b, a⟩, hba, heq⟩ := Option.map_eq_some_iff.1 h
      obtain ⟨rfl, rfl⟩ : c :: b = before ∧ a = after := by simpa using heq
      simp [ih hba]

theorem splitAt_ne_nil (sep : Char) (cs : List Char) : splitAt sep cs ≠ [] := by
  cases cs with
  | nil => simp [splitAt]
  | cons c cs =>
    rw [splitAt]
    split
    · simp
    · split <;> simp

/-- Splitting loses the separators and nothing else. -/
theorem joinWith_splitAt (sep : Char) (cs : List Char) :
    joinWith [sep] (splitAt sep cs) = cs := by
  induction cs with
  | nil => rfl
  | cons c cs ih =>
    rw [splitAt]
    by_cases h : c = sep
    · simp only [h, if_true]
      cases hs : splitAt sep cs with
      | nil => exact absurd hs (splitAt_ne_nil sep cs)
      | cons p ps => rw [hs] at ih; simp [joinWith, ih]
    · simp only [h, if_false]
      cases hs : splitAt sep cs with
      | nil => exact absurd hs (splitAt_ne_nil sep cs)
      | cons p ps =>
        rw [hs] at ih
        cases ps with
        | nil => simpa [joinWith] using ih
        | cons q qs => simpa [joinWith] using ih

/-! ## Length and order in 16-bit units -/

/-- The one or two 16-bit units of a character. -/
def charUnits (c : Char) : List Nat :=
  let n := c.toNat
  if n < 0x10000 then [n]
  else [0xd800 + (n - 0x10000) / 0x400, 0xdc00 + (n - 0x10000) % 0x400]

def units (cs : List Char) : List Nat := cs.flatMap charUnits

def unitLength (cs : List Char) : Nat := (units cs).length

/-- Lexicographic order of the units, a shorter text before its extensions. -/
def unitsLe : List Nat → List Nat → Bool
  | [], _ => true
  | _ :: _, [] => false
  | a :: as, b :: bs => a < b || (a = b && unitsLe as bs)

/-- The order in which names are sorted. -/
def nameLe (a b : String) : Bool := unitsLe (units a.toList) (units b.toList)

def sortNames (names : List String) : List String := names.mergeSort nameLe

/-- The distinct members in order of first appearance. -/
def distinct [BEq α] : List α → List α
  | [] => []
  | x :: xs => x :: (distinct xs).filter (· != x)

end Text

namespace Text

/-! ## The same on strings -/

def trimText (s : String) : String := String.ofList (trim s.toList)

def hasSub (s mark : String) : Bool := contains mark.toList s.toList

def hasPrefix (s head : String) : Bool := startsWith head.toList s.toList

def hasSuffix (s tail : String) : Bool := endsWith tail.toList s.toList

def splitText (sep : Char) (s : String) : List String := (splitAt sep s.toList).map String.ofList

/-! ## Classes of characters -/

/-- A class of characters as ascending ranges, both ends included. -/
abbrev CharRanges := List (Nat × Nat)

/-- The ranges are in ascending order, so the search stops at the first one that
ends at or after the code point. -/
def CharRanges.member : CharRanges → Nat → Bool
  | [], _ => false
  | (low, high) :: rest, n => if high < n then CharRanges.member rest n else low ≤ n

end Text
end ApiSync
