import Mathlib.Data.List.Chain
import ApiSync.Proofs.Annotation.Tree
import ApiSync.Proofs.Python.StringLiteral
/-!
# Expressions without their layout

An expression on one line is made of the lexemes of the source: names, string literals, dots,
commas, pipes and brackets, in their order, with a space around each pipe and behind each comma
and nowhere else.  Blanks, line breaks and comments between the lexemes leave no trace, because a
lexeme is written in one way behind each lexeme that it may follow.  The three exceptions are left
out by what may follow what: behind a name, a closing bracket or a literal a space is kept where
another name or literal comes, and behind a literal also where a dot or an opening bracket does.

Brackets need not match, so nothing depends on how deep an expression is nested.
-/

namespace ApiSync
namespace Python

open Text
open Annotation (IsWord not_isWordChar_of_isBlank)

/-! ## Lexemes and layout -/

inductive Bracket where
  | square
  | round

def Bracket.opening : Bracket → Char
  | .square => '['
  | .round => '('

def Bracket.closing : Bracket → Char
  | .square => ']'
  | .round => ')'

theorem Bracket.isClosingBracket_closing (b : Bracket) : isClosingBracket b.closing = true := by
  cases b <;> rfl

inductive Lexeme where
  | name (word : List Char) (isWord : IsWord word)
  | literal (l : StringLiteral)
  | dot
  | comma
  | pipe
  | opening (b : Bracket)
  | closing (b : Bracket)

namespace Lexeme

def text : Lexeme → List Char
  | name word _ => word
  | literal l => l.text
  | dot => ['.']
  | comma => [',']
  | pipe => ['|']
  | opening b => [b.opening]
  | closing b => [b.closing]

def isOperand : Lexeme → Bool
  | name _ _ | literal _ => true
  | _ => false

/-- Dots and opening brackets go on with what stands before them. -/
def goesOn : Lexeme → Bool
  | dot | opening _ => true
  | _ => false

/-- No operand stands directly behind another one or behind a closing bracket, and nothing goes on
with a literal. -/
def mayPrecede : Lexeme → Lexeme → Bool
  | name _ _, next | closing _, next => !next.isOperand
  | literal _, next => !next.isOperand && !next.goesOn
  | _, _ => true

end Lexeme

/-- What may stand between lexemes: blanks, line breaks behind a backslash or not, and comments
that end with their line. -/
inductive Layout : List Char → Prop
  | nil : Layout []
  | blank {c : Char} {rest : List Char} (hc : isBlank c = true) (hrest : Layout rest) :
      Layout (c :: rest)
  | continued {rest : List Char} (hrest : Layout rest) : Layout ('\\' :: '\n' :: rest)
  | comment {body rest : List Char} (hbody : '\n' ∉ body) (hrest : Layout rest) :
      Layout ('#' :: (body ++ '\n' :: rest))

/-- A source text that consists of the lexemes, with layout before, between and behind them. -/
inductive Spells : List Lexeme → List Char → Prop
  | nil {gap : List Char} (hgap : Layout gap) : Spells [] gap
  | cons {gap rest : List Char} {t : Lexeme} {ts : List Lexeme} (hgap : Layout gap)
      (hrest : Spells ts rest) : Spells (t :: ts) (gap ++ (t.text ++ rest))

/-! ## The expression on one line -/

namespace Lexeme

/-- Lexemes that take blanks away from what stands before them. -/
def closesUp : Lexeme → Bool
  | comma | closing _ => true
  | _ => false

/-- A space stands before and behind a pipe and behind a comma, but not before a comma or a closing
bracket. -/
def spaceBetween : Lexeme → Lexeme → Bool
  | _, pipe => true
  | pipe, next | comma, next => !next.closesUp
  | _, _ => false

def gap (t next : Lexeme) : List Char := if spaceBetween t next then [' '] else []

/-- What is written behind a lexeme before the next one is known. -/
def trail : Lexeme → List Char
  | pipe => [' ']
  | _ => []

end Lexeme

/-- The lexemes on one line. -/
def spaced : List Lexeme → List Char
  | [] => []
  | [t] => t.text
  | t :: next :: rest => t.text ++ (t.gap next ++ spaced (next :: rest))

theorem spaced_cons_cons (t next : Lexeme) (rest : List Lexeme) :
    spaced (t :: next :: rest) = t.text ++ (t.gap next ++ spaced (next :: rest)) := rfl

/-! ## Ends of lexemes -/

namespace Lexeme

theorem isBlank_bracket (b : Bracket) :
    isBlank b.opening = false ∧ isBlank b.closing = false := by
  cases b <;> decide

theorem not_isBlank_of_isWordChar {c : Char} (h : isWordChar c = true) : isBlank c = false := by
  rw [Bool.eq_false_iff]
  intro hb
  rw [not_isWordChar_of_isBlank hb] at h
  cases h

theorem not_isBlank_quote (l : StringLiteral) : isBlank l.quote = false := by
  rcases l.isQuote with h | h <;> rw [h] <;> decide

/-- A lexeme begins with what is no blank. -/
theorem exists_first (t : Lexeme) : ∃ c more, t.text = c :: more ∧ isBlank c = false := by
  cases t with
  | name word isWord =>
    obtain ⟨c, more, rfl⟩ := List.exists_cons_of_ne_nil isWord.nonempty
    exact ⟨c, more, rfl, not_isBlank_of_isWordChar (isWord.chars c List.mem_cons_self)⟩
  | literal l => exact ⟨l.quote, _, l.text_eq_cons, not_isBlank_quote l⟩
  | opening b => exact ⟨b.opening, [], rfl, (isBlank_bracket b).1⟩
  | closing b => exact ⟨b.closing, [], rfl, (isBlank_bracket b).2⟩
  | dot => exact ⟨'.', [], rfl, by decide⟩
  | comma => exact ⟨',', [], rfl, by decide⟩
  | pipe => exact ⟨'|', [], rfl, by decide⟩

/-- It ends with what is no blank. -/
theorem exists_last (t : Lexeme) : ∃ init c, t.text = init ++ [c] ∧ isBlank c = false := by
  cases t with
  | name word isWord =>
    have hlast : word.getLast isWord.nonempty ∈ word := List.getLast_mem isWord.nonempty
    exact ⟨word.dropLast, word.getLast isWord.nonempty,
      (List.dropLast_append_getLast isWord.nonempty).symm,
      not_isBlank_of_isWordChar (isWord.chars _ hlast)⟩
  | literal l => exact ⟨_, l.quote, l.text_eq_concat, not_isBlank_quote l⟩
  | opening b => exact ⟨[], b.opening, rfl, (isBlank_bracket b).1⟩
  | closing b => exact ⟨[], b.closing, rfl, (isBlank_bracket b).2⟩
  | dot => exact ⟨[], '.', rfl, by decide⟩
  | comma => exact ⟨[], ',', rfl, by decide⟩
  | pipe => exact ⟨[], '|', rfl, by decide⟩

theorem trail_eq (t : Lexeme) : t.trail = [] ∨ t.trail = [' '] := by
  cases t <;> simp [trail]

end Lexeme

/-! ## Reading character by character -/

/-- A character that is written as it is, with a space before it if one is due. -/
def isPlain (c : Char) : Bool :=
  !(isBlank c || isClosingBracket c || ['"', '\'', '#', '\\', ',', '|'].contains c)

theorem not_isBlank_of_isClosingBracket {c : Char} (h : isClosingBracket c = true) :
    isBlank c = false := by
  simp only [isClosingBracket, Bool.or_eq_true, decide_eq_true_eq] at h
  rcases h with (rfl | rfl) | rfl <;> decide

section Characters

variable (line : Line) (rest : List Char)

/-- One step outside of literals and comments. -/
theorem normalizeFrom_code (c : Char) : normalizeFrom line 0 false (c :: rest) =
    if c = '"' || c = '\'' then
      normalizeFrom (line.put c) (literalLength c (c :: rest) - 1) false rest
    else if c = '#' then normalizeFrom line 0 true rest
    else if isBlank c || (c = '\\' && rest.head? = some '\n') then
      normalizeFrom ⟨line.written, true⟩ 0 false rest
    else if c = ',' then normalizeFrom ⟨',' :: line.trimmed, true⟩ 0 false rest
    else if c = '|' then normalizeFrom ⟨' ' :: '|' :: ' ' :: line.trimmed, false⟩ 0 false rest
    else if isClosingBracket c then normalizeFrom ⟨c :: line.trimmed, false⟩ 0 false rest
    else normalizeFrom (line.put c) 0 false rest := by
  rw [normalizeFrom, if_neg (Nat.lt_irrefl 0), if_neg (by simp)]

theorem normalizeFrom_plain {c : Char} (h : isPlain c = true) :
    normalizeFrom line 0 false (c :: rest) = normalizeFrom (line.put c) 0 false rest := by
  simp only [isPlain, List.contains_cons, List.contains_nil, Bool.not_eq_true',
    Bool.or_eq_false_iff, beq_eq_false_iff_ne, ne_eq, Bool.or_false] at h
  obtain ⟨⟨hblank, hclosing⟩, hdouble, hsingle, hhash, hslash, hcomma, hpipe⟩ := h
  simp [normalizeFrom_code, hblank, hclosing, hdouble, hsingle, hhash, hslash, hcomma, hpipe]

theorem normalizeFrom_blank {c : Char} (h : isBlank c = true) :
    normalizeFrom line 0 false (c :: rest) = normalizeFrom ⟨line.written, true⟩ 0 false rest := by
  have hne {d : Char} (hd : isBlank d = false) : c ≠ d := by
    rintro rfl
    rw [h] at hd
    cases hd
  simp [normalizeFrom_code, h, hne (by decide : isBlank '"' = false),
    hne (by decide : isBlank '\'' = false), hne (by decide : isBlank '#' = false)]

theorem normalizeFrom_continued :
    normalizeFrom line 0 false ('\\' :: '\n' :: rest) =
      normalizeFrom ⟨line.written, true⟩ 0 false rest := by
  have hbreak := normalizeFrom_blank ⟨line.written, true⟩ rest (c := '\n') (by decide)
  rw [← hbreak]
  simp [normalizeFrom_code]

/-- A comment is passed over up to the end of its line. -/
theorem normalizeFrom_comment {body : List Char} (h : '\n' ∉ body)
    (hend : ∀ c ∈ rest.head?, c = '\n') :
    normalizeFrom line 0 false ('#' :: (body ++ rest)) = normalizeFrom line 0 false rest := by
  have hopen : normalizeFrom line 0 false ('#' :: (body ++ rest)) =
      normalizeFrom line 0 true (body ++ rest) := by
    simp [normalizeFrom_code]
  rw [hopen]
  clear hopen
  induction body with
  | nil =>
    cases rest with
    | nil => rfl
    | cons c rest =>
      obtain rfl : c = '\n' := hend c rfl
      simp [normalizeFrom]
  | cons c body ih =>
    obtain ⟨hc, hbody⟩ := List.ne_and_not_mem_of_not_mem_cons h
    rw [← ih hbody]
    simp [normalizeFrom, Ne.symm hc]

theorem normalizeFrom_comma :
    normalizeFrom line 0 false (',' :: rest) =
      normalizeFrom ⟨',' :: line.trimmed, true⟩ 0 false rest := by
  have hblank : isBlank ',' = false := by decide
  simp [normalizeFrom_code, hblank]

theorem normalizeFrom_pipe :
    normalizeFrom line 0 false ('|' :: rest) =
      normalizeFrom ⟨' ' :: '|' :: ' ' :: line.trimmed, false⟩ 0 false rest := by
  have hblank : isBlank '|' = false := by decide
  simp [normalizeFrom_code, hblank]

theorem normalizeFrom_closing {c : Char} (h : isClosingBracket c = true) :
    normalizeFrom line 0 false (c :: rest) =
      normalizeFrom ⟨c :: line.trimmed, false⟩ 0 false rest := by
  have hblank : isBlank c = false := not_isBlank_of_isClosingBracket h
  simp only [isClosingBracket, Bool.or_eq_true, decide_eq_true_eq] at h
  rcases h with (rfl | rfl) | rfl <;> simp [normalizeFrom_code, hblank, isClosingBracket]

/-- Characters of a literal are copied. -/
theorem normalizeFrom_copy (cs : List Char) :
    normalizeFrom line cs.length false (cs ++ rest) =
      normalizeFrom ⟨cs.reverse ++ line.written, line.pending⟩ 0 false rest := by
  induction cs generalizing line with
  | nil => rfl
  | cons c cs ih =>
    have hstep : normalizeFrom line (c :: cs).length false (c :: cs ++ rest) =
        normalizeFrom ⟨c :: line.written, line.pending⟩ cs.length false (cs ++ rest) := by
      simp [normalizeFrom]
    rw [hstep, ih, List.reverse_cons, List.append_assoc, List.singleton_append]

end Characters

/-- Layout writes nothing; it may leave a space due. -/
theorem normalizeFrom_layout {gap : List Char} (h : Layout gap) (line : Line)
    (rest : List Char) : ∃ pending, (line.pending = true → pending = true) ∧
      normalizeFrom line 0 false (gap ++ rest) =
        normalizeFrom ⟨line.written, pending⟩ 0 false rest := by
  induction h generalizing line with
  | nil => exact ⟨line.pending, id, rfl⟩
  | blank hc _ ih =>
    obtain ⟨pending, hkeep, hrest⟩ := ih ⟨line.written, true⟩
    exact ⟨pending, fun _ => hkeep rfl, (normalizeFrom_blank line _ hc).trans hrest⟩
  | continued _ ih =>
    obtain ⟨pending, hkeep, hrest⟩ := ih ⟨line.written, true⟩
    exact ⟨pending, fun _ => hkeep rfl, (normalizeFrom_continued line _).trans hrest⟩
  | @comment body more hbody _ ih =>
    obtain ⟨pending, hkeep, hrest⟩ := ih ⟨line.written, true⟩
    have hread := normalizeFrom_comment line ('\n' :: (more ++ rest)) hbody fun c hc =>
      (Option.some.inj hc).symm
    have hbreak := normalizeFrom_blank line (more ++ rest) (c := '\n') (by decide)
    rw [List.cons_append, List.append_assoc, List.cons_append]
    exact ⟨pending, fun _ => hkeep rfl, (hread.trans hbreak).trans hrest⟩

/-! ## Reading lexeme by lexeme -/

/-- Lexemes before which blanks at the end of the line are taken away. -/
def Lexeme.trims : Lexeme → Bool
  | .comma | .pipe | .closing _ => true
  | _ => false

/-- Only those may follow a literal. -/
theorem Lexeme.trims_of_literal {l : StringLiteral} {u : Lexeme}
    (h : (literal l).mayPrecede u = true) : u.trims = true := by
  cases u <;> simp_all [mayPrecede, isOperand, goesOn, trims]

theorem needsSpace_of_not_pending {line : Line} (h : line.pending = false) (c : Char) :
    line.needsSpace c = false := by
  rw [Line.needsSpace]
  split
  · rfl
  · rw [h]; rfl

theorem put_of_not_pending {line : Line} (h : line.pending = false) (c : Char) :
    line.put c = ⟨c :: line.written, false⟩ := by
  rw [Line.put, needsSpace_of_not_pending h]
  rfl

theorem isPlain_of_isWordChar {c : Char} (h : isWordChar c = true) : isPlain c = true := by
  have hclosing : isClosingBracket c = false := by
    rw [Bool.eq_false_iff]
    intro hc
    simp only [isClosingBracket, Bool.or_eq_true, decide_eq_true_eq] at hc
    rcases hc with (rfl | rfl) | rfl <;> exact absurd h (by decide)
  have hother : ['"', '\'', '#', '\\', ',', '|'].contains c = false := by
    rw [Bool.eq_false_iff]
    intro hc
    have hnone : (['"', '\'', '#', '\\', ',', '|'].all fun d => !isWordChar d) = true := by decide
    have hword := List.all_eq_true.mp hnone c (List.contains_iff_mem.mp hc)
    rw [h] at hword
    cases hword
  rw [isPlain, Lexeme.not_isBlank_of_isWordChar h, hclosing, hother]
  rfl

theorem normalizeFrom_word {word : List Char} (h : ∀ c ∈ word, isWordChar c = true)
    (written rest : List Char) :
    normalizeFrom ⟨written, false⟩ 0 false (word ++ rest) =
      normalizeFrom ⟨word.reverse ++ written, false⟩ 0 false rest := by
  induction word generalizing written with
  | nil => rfl
  | cons c word ih =>
    obtain ⟨hc, hword⟩ := List.forall_mem_cons.mp h
    rw [List.cons_append, normalizeFrom_plain _ _ (isPlain_of_isWordChar hc),
      put_of_not_pending rfl, ih hword, List.reverse_cons, List.append_assoc,
      List.singleton_append]

theorem normalizeFrom_literal (l : StringLiteral) {rest : List Char}
    (hlength : literalLength l.quote (l.text ++ rest) = l.text.length) {more : List Char}
    (htext : l.text = l.quote :: more) (line : Line) :
    normalizeFrom line 0 false (l.text ++ rest) =
      normalizeFrom ⟨more.reverse ++ (line.put l.quote).written, false⟩ 0 false rest := by
  have hopen : normalizeFrom line 0 false (l.text ++ rest) =
      normalizeFrom (line.put l.quote) more.length false (more ++ rest) := by
    rw [htext, List.cons_append] at hlength ⊢
    have hquote : (decide (l.quote = '"') || decide (l.quote = '\'')) = true := by
      rcases l.isQuote with h | h <;> rw [h] <;> rfl
    rw [normalizeFrom_code, if_pos hquote, hlength]
    rfl
  rw [hopen, normalizeFrom_copy]
  rfl

/-- Every other lexeme is written behind the space that is due. -/
theorem normalizeFrom_put {u : Lexeme} (hu : u.trims = false) {rest : List Char}
    (hrest : ∀ l, u = .literal l → rest.head? ≠ some l.quote) (line : Line) :
    ∃ c more, u.text = c :: more ∧ normalizeFrom line 0 false (u.text ++ rest) =
      normalizeFrom ⟨more.reverse ++ (line.put c).written, false⟩ 0 false rest := by
  cases u with
  | name word isWord =>
    obtain ⟨c, more, rfl⟩ := List.exists_cons_of_ne_nil isWord.nonempty
    obtain ⟨hc, hmore⟩ := List.forall_mem_cons.mp isWord.chars
    refine ⟨c, more, rfl, ?_⟩
    show normalizeFrom line 0 false (c :: (more ++ rest)) = _
    rw [normalizeFrom_plain _ _ (isPlain_of_isWordChar hc)]
    exact normalizeFrom_word hmore (line.put c).written rest
  | literal l =>
    have hlength := l.literalLength_text fun _ _ => hrest l rfl
    exact ⟨l.quote, _, l.text_eq_cons, normalizeFrom_literal l hlength l.text_eq_cons line⟩
  | dot => exact ⟨'.', [], rfl, normalizeFrom_plain line rest (by decide)⟩
  | opening b =>
    exact ⟨b.opening, [], rfl, normalizeFrom_plain line rest (by cases b <;> decide)⟩
  | _ => cases hu

/-- The line behind a lexeme: what came before, the lexeme and its trail.  Behind a comma a space
is due; behind other lexemes one may be, but it is not written. -/
structure Stands (before : List Char) (t : Lexeme) (line : Line) : Prop where
  written : line.written = (before ++ (t.text ++ t.trail)).reverse
  pending : t = .comma → line.pending = true

/-- What a lexeme writes before itself in any case. -/
def Lexeme.lead : Lexeme → List Char
  | .pipe => [' ']
  | _ => []

/-- A lexeme is written behind what is left of the line before it. -/
theorem exists_stands {u : Lexeme} {line : Line} {base rest : List Char}
    (hrest : ∀ l, u = .literal l → rest.head? ≠ some l.quote)
    (htrims : u.trims = true → line.trimmed = base.reverse)
    (hput : u.trims = false →
      ∀ c ∈ u.text.head?, (line.put c).written = c :: base.reverse) :
    ∃ next, normalizeFrom line 0 false (u.text ++ rest) = normalizeFrom next 0 false rest ∧
      Stands (base ++ u.lead) u next := by
  by_cases hu : u.trims = true
  · have htrimmed := htrims hu
    cases u with
    | comma =>
      refine ⟨_, normalizeFrom_comma line rest, ⟨?_, fun _ => rfl⟩⟩
      simp [htrimmed, Lexeme.lead, Lexeme.text, Lexeme.trail]
    | pipe =>
      refine ⟨_, normalizeFrom_pipe line rest, ⟨?_, fun h => nomatch h⟩⟩
      simp [htrimmed, Lexeme.lead, Lexeme.text, Lexeme.trail]
    | closing b =>
      refine ⟨_, normalizeFrom_closing line rest b.isClosingBracket_closing,
        ⟨?_, fun h => nomatch h⟩⟩
      simp [htrimmed, Lexeme.lead, Lexeme.text, Lexeme.trail]
    | _ => cases hu
  · rw [Bool.not_eq_true] at hu
    obtain ⟨c, more, htext, hread⟩ := normalizeFrom_put hu hrest line
    have hplain : u.lead = [] ∧ u.trail = [] ∧ u ≠ .comma := by
      cases u <;> simp_all [Lexeme.lead, Lexeme.trail, Lexeme.trims]
    refine ⟨_, hread, ⟨?_, fun h => absurd h hplain.2.2⟩⟩
    have hwritten := hput hu c (by rw [htext]; rfl)
    rw [hplain.1, hplain.2.1, htext, hwritten]
    simp

section Behind

variable {before : List Char} {t : Lexeme} {line : Line}

/-- Taking blanks away from the line behind a lexeme takes away the trail. -/
theorem Stands.trimmed (h : Stands before t line) : line.trimmed = (before ++ t.text).reverse := by
  obtain ⟨init, c, htext, hc⟩ := t.exists_last
  have hend : (before ++ t.text).reverse = c :: (before ++ init).reverse := by
    rw [htext, ← List.append_assoc, List.reverse_append]
    rfl
  have hkept : ((before ++ t.text).reverse).dropWhile isBlank = (before ++ t.text).reverse := by
    rw [hend, List.dropWhile_cons_of_neg (by rw [hc]; exact Bool.false_ne_true)]
  rw [Line.trimmed, h.written, ← List.append_assoc, List.reverse_append]
  rcases t.trail_eq with htrail | htrail
  · rw [htrail]
    exact hkept
  · rw [htrail]
    exact (List.dropWhile_cons_of_pos (by decide : isBlank ' ' = true)).trans hkept

theorem Lexeme.gap_of_not_trims {u : Lexeme} (hu : u.trims = false) (t : Lexeme) :
    t.gap u = match t with
      | .pipe | .comma => [' ']
      | _ => [] := by
  cases u <;> cases t <;>
    simp_all [Lexeme.trims, Lexeme.gap, Lexeme.spaceBetween, Lexeme.closesUp]

theorem put_written (last : Char) (written : List Char) (pending : Bool) (c : Char) :
    (Line.put ⟨last :: written, pending⟩ c).written =
      if Line.needsSpace ⟨last :: written, pending⟩ c then c :: ' ' :: last :: written
      else c :: last :: written := by
  rw [Line.put]
  split <;> rfl

/-- Behind a word or a closing bracket, a dot or an opening bracket goes on without a space. -/
theorem needsSpace_of_goesOn {last c : Char}
    (hlast : isWordChar last = true ∨ last = ']' ∨ last = ')') (hc : c ∈ ['.', '[', '('])
    (written : List Char) (pending : Bool) :
    Line.needsSpace ⟨last :: written, pending⟩ c = false := by
  have hgoes : (c = '[' || c = '(' || c = '.') = true := by
    simp only [List.mem_cons, List.not_mem_nil, or_false] at hc
    rcases hc with rfl | rfl | rfl <;> rfl
  have hattached : (isWordChar last || last = ']' || last = ')') = true := by
    rcases hlast with h | rfl | rfl
    · rw [h]; rfl
    · rfl
    · rfl
  simp only [Line.needsSpace, hgoes, hattached, Bool.and_self, Bool.not_true, Bool.and_false]

/-- Behind a lexeme, the next one is written with the gap between the two, whether a space is due
or not. -/
theorem Stands.put (h : Stands before t line) {u : Lexeme} (hmay : t.mayPrecede u = true)
    (hu : u.trims = false) {c : Char} (hc : c ∈ u.text.head?) :
    (line.put c).written = c :: (before ++ (t.text ++ t.gap u)).reverse := by
  obtain ⟨written, pending⟩ := line
  obtain ⟨hwritten, hpending⟩ := h
  dsimp only at hwritten hpending
  have hgap := Lexeme.gap_of_not_trims hu t
  have hgoes (hoperand : u.isOperand = false) : c ∈ ['.', '[', '('] := by
    cases u with
    | dot => obtain rfl := Option.some.inj hc; decide
    | opening b => obtain rfl := Option.some.inj hc; cases b <;> decide
    | name _ _ => cases hoperand
    | literal _ => cases hoperand
    | comma => cases hu
    | pipe => cases hu
    | closing _ => cases hu
  -- no space comes before the character: the gap is what is written already
  have hnone (last : Char) (hends : written = last :: written.tail)
      (hspace : Line.needsSpace ⟨last :: written.tail, pending⟩ c = false)
      (htrail : t.trail = t.gap u) :
      (Line.put ⟨written, pending⟩ c).written = c :: (before ++ (t.text ++ t.gap u)).reverse := by
    rw [hends, put_written, hspace, if_neg Bool.false_ne_true, ← hends, hwritten, htrail]
  cases t with
  | name word isWord =>
    obtain ⟨init, last, hword, -⟩ := Lexeme.exists_last (.name word isWord)
    have hlast : isWordChar last = true := isWord.chars last (by
      rw [show word = init ++ [last] from hword]; exact List.mem_concat_self)
    refine hnone last ?_
      (needsSpace_of_goesOn (.inl hlast) (hgoes (by simpa [Lexeme.mayPrecede] using hmay)) _ _)
      hgap.symm
    rw [hwritten, hword]
    simp [Lexeme.trail]
  | literal l =>
    rw [Lexeme.trims_of_literal hmay] at hu
    cases hu
  | dot =>
    refine hnone '.' ?_ (by simp [Line.needsSpace]) hgap.symm
    rw [hwritten]
    simp [Lexeme.text, Lexeme.trail]
  | comma =>
    have hspace : Line.needsSpace ⟨',' :: before.reverse, true⟩ c = true := by
      simp [Line.needsSpace, isOpeningBracket, (by decide : isWordChar ',' = false)]
    have hends : written = ',' :: before.reverse := by
      rw [hwritten]
      simp [Lexeme.text, Lexeme.trail]
    rw [hpending rfl, hends, put_written, if_pos hspace, hgap]
    simp [Lexeme.text]
  | pipe =>
    refine hnone ' ' ?_ (by simp [Line.needsSpace]) hgap.symm
    rw [hwritten]
    simp [Lexeme.text, Lexeme.trail]
  | opening b =>
    refine hnone b.opening ?_ ?_ hgap.symm
    · rw [hwritten]
      simp [Lexeme.text, Lexeme.trail]
    · cases b <;> simp [Line.needsSpace, isOpeningBracket, Bracket.opening]
  | closing b =>
    refine hnone b.closing ?_ (needsSpace_of_goesOn (.inr (by cases b <;> decide))
      (hgoes (by simpa [Lexeme.mayPrecede] using hmay)) _ _) hgap.symm
    rw [hwritten]
    simp [Lexeme.text, Lexeme.trail]

theorem Stands.of_pending (h : Stands before t line) {pending : Bool}
    (hkeep : line.pending = true → pending = true) : Stands before t ⟨line.written, pending⟩ :=
  ⟨h.written, fun ht => hkeep (h.pending ht)⟩

theorem Stands.next (h : Stands before t line) {u : Lexeme} (hmay : t.mayPrecede u = true)
    {rest : List Char} (hrest : ∀ l, u = .literal l → rest.head? ≠ some l.quote) :
    ∃ next, normalizeFrom line 0 false (u.text ++ rest) = normalizeFrom next 0 false rest ∧
      Stands (before ++ (t.text ++ t.gap u)) u next := by
  by_cases hu : u.trims = true
  · have hlead : u.lead = t.gap u := by
      cases u <;> cases t <;>
        simp_all [Lexeme.trims, Lexeme.lead, Lexeme.gap, Lexeme.spaceBetween, Lexeme.closesUp]
    rw [← hlead, ← List.append_assoc]
    exact exists_stands hrest (fun _ => h.trimmed) fun hputs => absurd hu (by rw [hputs]; decide)
  · rw [Bool.not_eq_true] at hu
    have hlead : u.lead = [] := by cases u <;> simp_all [Lexeme.trims, Lexeme.lead]
    rw [← List.append_nil (before ++ (t.text ++ t.gap u)), ← hlead]
    exact exists_stands hrest (fun htrims => absurd htrims (by rw [hu]; decide))
      fun _ _ hc => h.put hmay hu hc

end Behind

theorem exists_stands_first (pending : Bool) {u : Lexeme} {rest : List Char}
    (hrest : ∀ l, u = .literal l → rest.head? ≠ some l.quote) :
    ∃ next, normalizeFrom ⟨[], pending⟩ 0 false (u.text ++ rest) = normalizeFrom next 0 false rest ∧
      Stands u.lead u next := by
  have htrimmed : u.trims = true → Line.trimmed ⟨[], pending⟩ = ([] : List Char).reverse :=
    fun _ => rfl
  exact exists_stands hrest htrimmed fun _ _ _ => rfl

/-! ## Reading the whole text -/

theorem Layout.head? {gap : List Char} (h : Layout gap) {c : Char} (hc : c ∈ gap.head?) :
    isBlank c = true ∨ c = '\\' ∨ c = '#' := by
  cases h with
  | nil => cases hc
  | blank hblank _ => exact .inl (Option.some.inj hc ▸ hblank)
  | continued _ => exact .inr (.inl (Option.some.inj hc).symm)
  | comment _ _ => exact .inr (.inr (Option.some.inj hc).symm)

/-- The text behind a literal does not begin with its quote, which would lengthen it. -/
theorem Spells.head?_ne {t : Lexeme} {ts : List Lexeme} {s : List Char} (h : Spells ts s)
    (hchain : (t :: ts).IsChain (·.mayPrecede · = true)) :
    ∀ l, t = .literal l → s.head? ≠ some l.quote := by
  rintro l rfl
  have hquote : isBlank l.quote = false ∧ l.quote ∉ ['\\', '#', ',', '|', ']', ')'] := by
    rcases l.isQuote with h | h <;> rw [h] <;> decide
  simp only [List.mem_cons, List.not_mem_nil, or_false, not_or] at hquote
  obtain ⟨hblank, hslash, hhash, hcomma, hpipe, hsquare, hround⟩ := hquote
  have hgap {gap : List Char} (hlayout : Layout gap) : gap.head? ≠ some l.quote := by
    intro hc
    rcases hlayout.head? hc with h | h | h
    · rw [hblank] at h
      cases h
    · exact hslash h
    · exact hhash h
  cases h with
  | nil hlayout => exact hgap hlayout
  | @cons gap rest u us hlayout hrest =>
    cases gap with
    | cons c gap => exact fun hc => hgap hlayout hc
    | nil =>
      have htrims := Lexeme.trims_of_literal (hchain.rel_head? rfl)
      intro hc
      cases u with
      | comma => exact hcomma (Option.some.inj hc).symm
      | pipe => exact hpipe (Option.some.inj hc).symm
      | closing b =>
        cases b with
        | square => exact hsquare (Option.some.inj hc).symm
        | round => exact hround (Option.some.inj hc).symm
      | name _ _ | literal _ | dot | opening _ => cases htrims

/-- From behind one lexeme, reading on writes the others. -/
theorem Stands.run {ts : List Lexeme} {s : List Char} (hs : Spells ts s) {before : List Char}
    {t : Lexeme} {line : Line} (h : Stands before t line)
    (hchain : (t :: ts).IsChain (·.mayPrecede · = true)) :
    ∃ last : Lexeme, (normalizeFrom line 0 false s).written.reverse =
      before ++ (spaced (t :: ts) ++ last.trail) := by
  induction hs generalizing before t line with
  | nil hgap =>
    obtain ⟨pending, -, hread⟩ := normalizeFrom_layout hgap line []
    rw [List.append_nil] at hread
    refine ⟨t, ?_⟩
    rw [hread]
    show line.written.reverse = _
    rw [h.written, List.reverse_reverse]
    rfl
  | @cons gap rest u us hgap hrest ih =>
    obtain ⟨hmay, hchain⟩ := List.isChain_cons_cons.mp hchain
    obtain ⟨pending, hkeep, hread⟩ := normalizeFrom_layout hgap line (u.text ++ rest)
    obtain ⟨next, hnext, hstands⟩ := (h.of_pending hkeep).next hmay (hrest.head?_ne hchain)
    obtain ⟨last, hwritten⟩ := ih hstands hchain
    refine ⟨last, ?_⟩
    rw [hread, hnext, hwritten, spaced_cons_cons]
    simp only [List.append_assoc]

theorem exists_spaced_first (t : Lexeme) (ts : List Lexeme) :
    ∃ c more, spaced (t :: ts) = c :: more ∧ isBlank c = false := by
  obtain ⟨c, more, htext, hc⟩ := t.exists_first
  cases ts with
  | nil => exact ⟨c, more, htext, hc⟩
  | cons u us =>
    rw [spaced_cons_cons, htext]
    exact ⟨c, _, rfl, hc⟩

theorem exists_spaced_last (t : Lexeme) (ts : List Lexeme) :
    ∃ init c, spaced (t :: ts) = init ++ [c] ∧ isBlank c = false := by
  induction ts generalizing t with
  | nil => exact t.exists_last
  | cons u us ih =>
    obtain ⟨init, c, hrest, hc⟩ := ih u
    rw [spaced_cons_cons, hrest]
    exact ⟨t.text ++ (t.gap u ++ init), c, by simp only [List.append_assoc], hc⟩

theorem trim_spaced (t : Lexeme) (ts : List Lexeme) :
    trim (spaced (t :: ts)) = spaced (t :: ts) := by
  rw [trim_eq_self_iff]
  obtain ⟨first, more, hfirst, hblank⟩ := exists_spaced_first t ts
  obtain ⟨init, last, hlast, hend⟩ := exists_spaced_last t ts
  constructor
  · rw [hfirst]
    rintro c ⟨⟩
    exact hblank
  · rw [hlast, List.getLast?_concat]
    rintro c ⟨⟩
    exact hend

/-- What is read is the lexemes on one line. -/
theorem normalize_eq_spaced {ts : List Lexeme} (hchain : ts.IsChain (·.mayPrecede · = true))
    {s : List Char} (hs : Spells ts s) : normalize s = spaced ts := by
  rw [normalize]
  cases hs with
  | nil hgap =>
    obtain ⟨pending, -, hread⟩ := normalizeFrom_layout hgap ⟨[], false⟩ []
    rw [List.append_nil] at hread
    rw [hread]
    rfl
  | @cons gap rest u us hgap hrest =>
    obtain ⟨pending, -, hread⟩ := normalizeFrom_layout hgap ⟨[], false⟩ (u.text ++ rest)
    obtain ⟨line, hfirst, hstands⟩ := exists_stands_first pending (hrest.head?_ne hchain)
    obtain ⟨last, hwritten⟩ := hstands.run hrest hchain
    have hlead : ∀ c ∈ u.lead, isBlank c = true := by
      cases u <;> simp [Lexeme.lead, (by decide : isBlank ' ' = true)]
    have htrail : trim (spaced (u :: us) ++ last.trail) = trim (spaced (u :: us)) := by
      rcases last.trail_eq with h | h <;> rw [h]
      · rw [List.append_nil]
      · exact trim_append_of_blank (by decide) _
    rw [hread, hfirst, hwritten, trim_append_left hlead, htrail, trim_spaced]

theorem text_infix_spaced {t : Lexeme} {ts : List Lexeme} (h : t ∈ ts) :
    t.text <:+: spaced ts := by
  induction ts with
  | nil => exact absurd h List.not_mem_nil
  | cons u us ih =>
    cases us with
    | nil =>
      rw [List.mem_singleton.mp h]
      exact List.infix_rfl
    | cons v vs =>
      rw [spaced_cons_cons]
      rcases List.mem_cons.mp h with rfl | h
      · exact (List.prefix_append _ _).isInfix
      · rw [← List.append_assoc]
        exact (ih h).trans (List.suffix_append _ _).isInfix

/-- Two texts of the same lexemes, whatever their layout, are the same expression on one line, in
which the lexemes and so the string literals stand as they are. -/
theorem normalize_depends_on_lexemes {ts : List Lexeme}
    (hchain : ts.IsChain (·.mayPrecede · = true)) {s s' : List Char} (hs : Spells ts s)
    (hs' : Spells ts s') :
    normalize s = normalize s' ∧ normalize s = spaced ts ∧
      ∀ l, .literal l ∈ ts → l.text <:+: normalize s := by
  have hline := normalize_eq_spaced hchain hs
  refine ⟨hline.trans (normalize_eq_spaced hchain hs').symm, hline, fun l hl => ?_⟩
  rw [hline]
  exact text_infix_spaced hl

/-- The literal holds what would open a comment and close a bracket. -/
def quotedMarks : StringLiteral where
  quote := '"'
  triple := false
  body := ['#', ']']
  isQuote := .inl rfl
  isBody := @IsBody.char _ _ 0 _ _ (Nat.le_refl 0) (by decide) (by decide) (by decide)
    (@IsBody.char _ _ 0 _ _ (Nat.le_refl 0) (by decide) (by decide) (by decide) .nil)

/-- The lexemes of `a["#]" | b]`. -/
def subscripted : List Lexeme :=
  [.name ['a'] (by decide), .opening .square, .literal quotedMarks, .pipe,
    .name ['b'] (by decide), .closing .square]

theorem normalize_depends_on_lexemes_commented :
    subscripted.IsChain (·.mayPrecede · = true) ∧
    Spells subscripted "a [ # \"note\n\"#]\"|b\\\n]".toList ∧
    Spells subscripted "a[\"#]\" |\tb]\n".toList ∧
    normalize "a [ # \"note\n\"#]\"|b\\\n]".toList =
      normalize "a[\"#]\" |\tb]\n".toList ∧
    normalize "a [ # \"note\n\"#]\"|b\\\n]".toList = "a[\"#]\" | b]".toList := by
  have hchain : subscripted.IsChain (·.mayPrecede · = true) := by
    simp [subscripted, Lexeme.mayPrecede, Lexeme.isOperand, Lexeme.goesOn]
  have hs : Spells subscripted "a [ # \"note\n\"#]\"|b\\\n]".toList :=
    .cons .nil (.cons (.blank (c := ' ') rfl .nil)
      (.cons (.blank (c := ' ') rfl (@Layout.comment " \"note".toList _ (by decide) .nil))
        (.cons .nil (.cons .nil (.cons (.continued .nil) (.nil .nil))))))
  have hs' : Spells subscripted "a[\"#]\" |\tb]\n".toList :=
    .cons .nil (.cons .nil (.cons .nil (.cons (.blank (c := ' ') rfl .nil)
      (.cons (.blank (c := '\t') rfl .nil) (.cons .nil (.nil (.blank (c := '\n') rfl .nil)))))))
  obtain ⟨hsame, hline, -⟩ := normalize_depends_on_lexemes hchain hs hs'
  exact ⟨hchain, hs, hs', hsame, hline⟩

end Python
end ApiSync
