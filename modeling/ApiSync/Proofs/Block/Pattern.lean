import ApiSync.Block
/-!
# The pattern of a block

A block is the first match of a pattern: the opening mark, `\s*([\s\S]*?)\s*`, and the closing mark.
In both marks a backslash stands before every sign that means something in patterns, so the pattern
reads in one way, in which the characters of the marks stand for themselves.  A pattern is matched
by trying alternatives in order: a greedy repetition first goes on, a lazy one first ends.
-/

namespace ApiSync
namespace Block

open Text

/-! ## Patterns as text -/

/-- The signs that mean something in a pattern. -/
def signs : List Char :=
  ['^', '$', '\\', '.', '*', '+', '?', '(', ')', '[', ']', '\x7b', '\x7d', '|']

/-- The characters that a backslash makes stand for themselves. -/
def escaped : List Char := signs ++ ['/', '-']

def escape (mark : List Char) : List Char :=
  mark.flatMap fun c => if c ∈ escaped then ['\\', c] else [c]

def blanksText : List Char := ['\\', 's', '*']

def bodyText : List Char := ['(', '[', '\\', 's', '\\', 'S', ']', '*', '?', ')']

def pattern (opening closing : List Char) : List Char :=
  escape opening ++ (blanksText ++ (bodyText ++ (blanksText ++ escape closing)))

inductive Item where
  | char (c : Char)
  | blanks
  | body
deriving DecidableEq, Repr

/-- How a pattern of these items reads. -/
inductive Reads : List Char → List Item → Prop
  | nil : Reads [] []
  | char {c : Char} {text : List Char} {items : List Item} (hc : c ∉ signs)
      (hrest : Reads text items) : Reads (c :: text) (.char c :: items)
  | escaped {c : Char} {text : List Char} {items : List Item} (hc : c ∈ escaped)
      (hrest : Reads text items) : Reads ('\\' :: c :: text) (.char c :: items)
  | blanks {text : List Char} {items : List Item} (hrest : Reads text items) :
      Reads (blanksText ++ text) (.blanks :: items)
  | body {text : List Char} {items : List Item} (hrest : Reads text items) :
      Reads (bodyText ++ text) (.body :: items)

/-- The marks stand for themselves. -/
def around (opening closing : List Char) : List Item :=
  opening.map .char ++ .blanks :: .body :: .blanks :: closing.map .char

theorem Reads.mark {text : List Char} {items : List Item} (h : Reads text items)
    (mark : List Char) : Reads (escape mark ++ text) (mark.map .char ++ items) := by
  induction mark with
  | nil => exact h
  | cons c mark ih =>
    rw [escape, List.flatMap_cons, List.append_assoc]
    by_cases hc : c ∈ Block.escaped
    · rw [if_pos hc]
      exact .escaped hc ih
    · rw [if_neg hc]
      exact .char (fun hsign => hc (List.mem_append_left _ hsign)) ih

theorem reads_pattern (opening closing : List Char) :
    Reads (pattern opening closing) (around opening closing) := by
  have hclosing := Reads.nil.mark closing
  rw [List.append_nil, List.append_nil] at hclosing
  exact (Reads.blanks (.body (.blanks hclosing))).mark opening

/-- A pattern reads in one way. -/
theorem Reads.unique {text : List Char} {items others : List Item} (h : Reads text items)
    (hothers : Reads text others) : others = items := by
  have hletter : 's' ∉ Block.escaped := by decide
  have hslash : '\\' ∈ signs := by decide
  have hparen : '(' ∈ signs := by decide
  induction h generalizing others with
  | nil => cases hothers with
    | nil => rfl
  | char hc hrest ih =>
    cases hothers with
    | char _ hother => rw [ih hother]
    | escaped _ _ => exact absurd hslash hc
    | blanks _ => exact absurd hslash hc
    | body _ => exact absurd hparen hc
  | escaped hc hrest ih =>
    cases hothers with
    | char hsign _ => exact absurd hslash hsign
    | escaped _ hother => rw [ih hother]
    | blanks _ => exact absurd hc hletter
  | blanks hrest ih =>
    cases hothers with
    | char hsign _ => exact absurd hslash hsign
    | escaped hc _ => exact absurd hc hletter
    | blanks hother => rw [ih hother]
  | body hrest ih =>
    cases hothers with
    | char hsign _ => exact absurd hparen hsign
    | body hother => rw [ih hother]

/-! ## Matches -/

/-- A character in any letter case, then a match by `later`. -/
def charThen (m : Char) (later : List Char → List Found) : List Char → List Found
  | [] => []
  | c :: cs => if sameLetter m c then later cs else []

/-- Blanks, as many as possible first, then a match by `later`. -/
def blanksThen (later : List Char → List Found) : List Char → List Found
  | [] => later []
  | c :: cs => (if isBlank c then blanksThen later cs else []) ++ later (c :: cs)

/-- Any characters, as few as possible first, then a match by `later`. -/
def bodyThen (later : List Char → List Found) : List Char → List Found
  | [] => later []
  | c :: cs =>
    later (c :: cs) ++ (bodyThen later cs).map fun f => { f with body := c :: f.body }

/-- The ways in which a text starts with a match, in the order in which they are tried. -/
def candidates : List Item → List Char → List Found
  | [] => fun cs => [⟨[], cs⟩]
  | .char m :: items => charThen m (candidates items)
  | .blanks :: items => blanksThen (candidates items)
  | .body :: items => bodyThen (candidates items)

theorem candidates_mark (mark : List Char) (items : List Item) (cs : List Char) :
    candidates (mark.map .char ++ items) cs =
      ((dropMark? mark cs).map (candidates items)).getD [] := by
  induction mark generalizing cs with
  | nil => rfl
  | cons m mark ih =>
    show charThen m (candidates (mark.map .char ++ items)) cs = _
    cases cs with
    | nil => rfl
    | cons c cs =>
      rw [charThen, dropMark?]
      by_cases hsame : sameLetter m c = true
      · rw [if_pos hsame, if_pos hsame, ih]
      · rw [if_neg hsame, if_neg hsame]
        rfl

section

variable (closing : List Char)

theorem head?_closing (cs : List Char) : (candidates (closing.map .char) cs).head? =
    (dropMark? closing cs).map fun rest => ⟨[], rest⟩ := by
  have h := candidates_mark closing [] cs
  rw [List.append_nil] at h
  rw [h]
  cases dropMark? closing cs <;> rfl

theorem head?_closeHere (cs : List Char) :
    (candidates (.blanks :: closing.map .char) cs).head? =
      (closeHere? closing cs).map fun rest => ⟨[], rest⟩ := by
  show (blanksThen (candidates (closing.map .char)) cs).head? = _
  induction cs with
  | nil => exact head?_closing closing []
  | cons c cs ih =>
    rw [blanksThen, List.head?_append, head?_closing, closeHere?]
    by_cases hblank : isBlank c = true
    · rw [if_pos hblank, if_pos hblank, ih]
      cases closeHere? closing cs <;> rfl
    · rw [if_neg hblank, if_neg hblank]
      rfl

/-- A body ends here, or takes a character and goes on. -/
theorem body?_eq_or (c : Char) (cs : List Char) : body? closing (c :: cs) =
    ((closeHere? closing (c :: cs)).map fun rest => ⟨[], rest⟩).or
      ((body? closing cs).map fun f => { f with body := c :: f.body }) := by
  conv => lhs; unfold body?
  cases closeHere? closing (c :: cs) <;> rfl

theorem head?_bodyThen {later : List Char → List Found}
    (hlater : ∀ cs, (later cs).head? = (closeHere? closing cs).map fun rest => ⟨[], rest⟩)
    (cs : List Char) : (bodyThen later cs).head? = body? closing cs := by
  induction cs with
  | nil => exact hlater []
  | cons c cs ih =>
    rw [bodyThen, List.head?_append, hlater, List.head?_map, ih, body?_eq_or]

theorem head?_body (cs : List Char) :
    (candidates (.body :: .blanks :: closing.map .char) cs).head? = body? closing cs :=
  head?_bodyThen closing (head?_closeHere closing) cs

theorem head?_afterBlanks (cs : List Char) :
    (candidates (.blanks :: .body :: .blanks :: closing.map .char) cs).head? =
      afterBlanks? closing cs := by
  show (blanksThen (candidates (.body :: .blanks :: closing.map .char)) cs).head? = _
  induction cs with
  | nil => exact head?_body closing []
  | cons c cs ih =>
    rw [blanksThen, List.head?_append, head?_body, afterBlanks?]
    by_cases hblank : isBlank c = true
    · rw [if_pos hblank, if_pos hblank, ih]
    · rw [if_neg hblank, if_neg hblank]
      rfl

end

/-- A block at a position is the match that is tried first. -/
theorem here?_eq_head? (opening closing cs : List Char) :
    here? opening closing cs = (candidates (around opening closing) cs).head? := by
  rw [around, candidates_mark, here?]
  cases dropMark? opening cs with
  | none => rfl
  | some inside =>
    rw [Option.map_some, Option.getD_some, head?_afterBlanks]
    rfl

end Block
end ApiSync
