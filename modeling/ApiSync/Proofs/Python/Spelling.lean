import Mathlib.Data.List.Forall2
import ApiSync.Proofs.Number.Numeral
import ApiSync.Proofs.Python.Escapes
import ApiSync.Proofs.Python.StringLiteral
import ApiSync.Proofs.Text
/-!
# Texts and their spellings

A text is spelled between the delimiters of a literal with plain characters, with escapes, and with
lines that a backslash continues; it may be cut into several literals side by side.  Reading the
literals gives the text back, whichever way it is spelled.
-/

namespace ApiSync
namespace Python

open Text Number

/-! ## Spelling a text -/

/-- The letter behind a backslash, and the character that the two of them stand for. -/
def shortEscapes : List (Char × Char) :=
  [('\\', '\\'), ('\'', '\''), ('"', '"'), ('n', '\n'), ('t', '\t'), ('r', '\r'), ('a', '\x07'),
    ('b', '\x08'), ('f', '\x0c'), ('v', '\x0b')]

/-- The letter of a numeric escape, and how many hexadecimal digits follow it. -/
def numericEscapes : List (Char × Nat) := [('x', 2), ('u', 4), ('U', 8)]

/-- The first text, as the body of a literal, spells the second one. -/
inductive SpellsText : List Char → List Char → Prop
  | nil : SpellsText [] []
  | plain {c : Char} {body text : List Char} (hc : c ≠ '\\') (hrest : SpellsText body text) :
      SpellsText (c :: body) (c :: text)
  | short {letter c : Char} {body text : List Char} (hletter : (letter, c) ∈ shortEscapes)
      (hrest : SpellsText body text) : SpellsText ('\\' :: letter :: body) (c :: text)
  | numeric {letter c : Char} {digits : List Nat} {word body text : List Char}
      (hletter : (letter, word.length) ∈ numericEscapes) (hword : SpellsDigits 16 digits word)
      (hc : positional 16 digits = c.toNat) (hrest : SpellsText body text) :
      SpellsText ('\\' :: letter :: (word ++ body)) (c :: text)
  | continued {body text : List Char} (hrest : SpellsText body text) :
      SpellsText ('\\' :: '\n' :: body) text

theorem SpellsText.append {body text more rest : List Char} (h : SpellsText body text)
    (hmore : SpellsText more rest) : SpellsText (body ++ more) (text ++ rest) := by
  induction h with
  | nil => exact hmore
  | plain hc _ ih => exact .plain hc ih
  | short hletter _ ih => exact .short hletter ih
  | @numeric letter c digits word body text hletter hword hc _ ih =>
    rw [List.cons_append, List.cons_append, List.append_assoc]
    exact .numeric hletter hword hc ih
  | continued _ ih => exact .continued ih

theorem SpellsText.of_ordinary {cs : List Char} (h : '\\' ∉ cs) : SpellsText cs cs := by
  induction cs with
  | nil => exact .nil
  | cons c cs ih =>
    obtain ⟨hc, hcs⟩ := not_or.mp (List.mem_cons.not.mp h)
    exact .plain (Ne.symm hc) (ih hcs)

theorem IsBody.of_ordinary {quote : Char} {triple : Bool} {cs : List Char}
    (h : cs.all (fun c => c ≠ quote && c ≠ '\\' && c ≠ '\n') = true) : IsBody quote triple cs := by
  induction cs with
  | nil => exact .nil
  | cons c cs ih =>
    simp only [List.all_cons, Bool.and_eq_true, decide_eq_true_eq] at h
    obtain ⟨⟨⟨hquote, hslash⟩, hbreak⟩, hcs⟩ := h
    exact @IsBody.char _ _ 0 _ _ (Nat.zero_le _) hquote hslash (fun hc => absurd hc hbreak) (ih hcs)

/-! ## Reading escapes -/

theorem hexEscape?_of_short {letter c : Char} (h : (letter, c) ∈ shortEscapes)
    (rest : List Char) :
    hexEscape? letter rest = none ∧ simpleEscape? letter = some [c] := by
  simp only [shortEscapes, List.mem_cons, Prod.mk.injEq, List.not_mem_nil, or_false] at h
  rcases h with ⟨rfl, rfl⟩ | ⟨rfl, rfl⟩ | ⟨rfl, rfl⟩ | ⟨rfl, rfl⟩ | ⟨rfl, rfl⟩ | ⟨rfl, rfl⟩ |
    ⟨rfl, rfl⟩ | ⟨rfl, rfl⟩ | ⟨rfl, rfl⟩ | ⟨rfl, rfl⟩ <;> exact ⟨rfl, rfl⟩

theorem decodeFrom_simple {letter : Char} {out rest : List Char}
    (hhex : hexEscape? letter rest = none) (hout : simpleEscape? letter = some out) :
    decodeFrom 0 ('\\' :: letter :: rest) = do
      return out.map Char.toNat ++ (← decodeFrom 0 rest) := by
  have hskip : decodeFrom 1 (letter :: rest) = decodeFrom 0 rest :=
    decodeFrom_skip 1 (letter :: rest)
  rw [decodeFrom.eq_def]
  dsimp only
  rw [if_neg (Nat.lt_irrefl 0), if_neg (fun hne => hne rfl), hhex]
  dsimp only
  rw [hskip, hout]

theorem hexEscape?_of_numeric {letter : Char} {digits : List Nat} {word : List Char}
    (hletter : (letter, word.length) ∈ numericEscapes) (hword : SpellsDigits 16 digits word)
    (rest : List Char) :
    hexEscapeLength letter = word.length ∧
      hexEscape? letter (word ++ rest) = some (positional 16 digits) := by
  have hlength : hexEscapeLength letter = word.length ∧ word.length ≠ 0 := by
    simp only [numericEscapes, List.mem_cons, Prod.mk.injEq, List.not_mem_nil, or_false] at hletter
    rcases hletter with ⟨rfl, hword⟩ | ⟨rfl, hword⟩ | ⟨rfl, hword⟩ <;> rw [hword] <;>
      exact ⟨rfl, by decide⟩
  refine ⟨hlength.1, ?_⟩
  rw [hexEscape?, hlength.1, List.take_left, if_pos ⟨hlength.2, rfl⟩]
  exact radixValue?_of_spellsDigits (by decide) hword

theorem toNat_le_highestPoint (c : Char) : c.toNat ≤ highestPoint := by
  have hvalid := c.valid
  simp only [UInt32.isValidChar, Nat.isValidChar] at hvalid
  simp only [Char.toNat, highestPoint]
  omega

/-- The escapes of a body are undone. -/
theorem decodeEscapes_of_spellsText {body text : List Char} (h : SpellsText body text) :
    decodeEscapes body = .ok (pointsOf text) := by
  rw [decodeEscapes]
  induction h with
  | nil => rfl
  | plain hc _ ih =>
    rw [decodeFrom_cons hc, ih]
    rfl
  | short hletter _ ih =>
    obtain ⟨hhex, hout⟩ := hexEscape?_of_short hletter _
    rw [decodeFrom_simple hhex hout, ih]
    rfl
  | @numeric letter c digits word body text hletter hword hc _ ih =>
    obtain ⟨hlength, hhex⟩ := hexEscape?_of_numeric hletter hword body
    rw [decodeFrom_number hhex, hlength, List.drop_left, ih, hc, if_neg]
    · rfl
    · exact Nat.not_lt.mpr (toNat_le_highestPoint c)
  | continued _ ih =>
    rw [@decodeFrom_simple '\n' [] _ rfl rfl, ih]
    rfl

theorem not_isSurrogate (c : Char) :
    isHighSurrogate c.toNat = false ∧ isLowSurrogate c.toNat = false := by
  have hvalid := c.valid
  simp only [UInt32.isValidChar, Nat.isValidChar] at hvalid
  simp only [isHighSurrogate, isLowSurrogate, Char.toNat, Bool.and_eq_false_iff,
    decide_eq_false_iff_not]
  omega

theorem pointChar_toNat (c : Char) : pointChar c.toNat = c := by
  rw [pointChar, (not_isSurrogate c).1, (not_isSurrogate c).2]
  exact Char.ofNat_toNat c

/-- Characters are no surrogates, so their code points make the same text again. -/
theorem textOfPoints_pointsOf (cs : List Char) : textOfPoints (pointsOf cs) = cs := by
  induction cs with
  | nil => rfl
  | cons c cs ih =>
    cases cs with
    | nil => exact congrArg ([·]) (pointChar_toNat c)
    | cons d ds =>
      have hpair : (isHighSurrogate c.toNat && isLowSurrogate d.toNat) = false := by
        rw [(not_isSurrogate c).1, Bool.false_and]
      have hstep : textOfPoints (pointsOf (c :: d :: ds)) =
          pointChar c.toNat :: textOfPoints (pointsOf (d :: ds)) := by
        rw [pointsOf, List.map_cons, List.map_cons, textOfPoints, hpair]
        rfl
      rw [hstep, ih, pointChar_toNat]

/-! ## Pieces of a literal -/

/-- A string literal with its letters in front. -/
structure Piece where
  letters : List Char
  quoted : StringLiteral
  areLetters : letters.all isPrefixLetter = true

namespace Piece

def text (p : Piece) : String := String.ofList (p.letters ++ p.quoted.text)

/-- A plain literal, with the letter of an ordinary text or with none. -/
def IsPlain (p : Piece) : Prop := p.letters ∈ [[], ['u'], ['U']]

instance (p : Piece) : Decidable p.IsPlain := inferInstanceAs (Decidable (_ ∈ _))

def IsRaw (p : Piece) : Prop := p.letters ∈ [['r'], ['R']]

instance (p : Piece) : Decidable p.IsRaw := inferInstanceAs (Decidable (_ ∈ _))

/-- The literal is plain and spells the text, or it is raw and holds it as it is. -/
inductive Denotes : Piece → List Char → Prop
  | plain {p : Piece} {text : List Char} (hplain : p.IsPlain)
      (hspells : SpellsText p.quoted.body text) : Denotes p text
  | raw {p : Piece} (hraw : p.IsRaw) : Denotes p p.quoted.body

end Piece

theorem between?_delimiter (delimiter body : List Char) :
    between? delimiter (delimiter ++ (body ++ delimiter)) = some body := by
  have hends : endsWith delimiter (body ++ delimiter) = true := by
    rw [endsWith, List.reverse_append]
    exact startsWith_append _ _
  rw [between?, dropPrefix?_append, Option.bind_some, if_pos hends, List.length_append,
    Nat.add_sub_cancel, List.take_left]

theorem between?_eq_none {delimiter cs : List Char} (h : startsWith delimiter cs = false) :
    between? delimiter cs = none := by
  rw [startsWith, Option.isSome_eq_false_iff, Option.isNone_iff_eq_none] at h
  rw [between?, h]
  rfl

theorem startsWith_of_ne {q c : Char} (h : q ≠ c) (more cs : List Char) :
    startsWith (q :: more) (c :: cs) = false := by
  rw [startsWith, dropPrefix?, if_neg h]
  rfl

/-- Of the delimiters, in the order in which they are tried, the one of the literal fits first. -/
theorem findSome?_between (l : StringLiteral) :
    [['\'', '\'', '\''], ['"', '"', '"'], ['\''], ['"']].findSome? (between? · l.text) =
      some l.body := by
  have hfound (more : List (List Char)) :
      (l.delimiter :: more).findSome? (between? · l.text) = some l.body := by
    rw [List.findSome?_cons, StringLiteral.text, between?_delimiter]
  have hnext {delimiter : List Char} (h : startsWith delimiter l.text = false)
      (more : List (List Char)) : (delimiter :: more).findSome? (between? · l.text) =
        more.findSome? (between? · l.text) := by
    rw [List.findSome?_cons, between?_eq_none h]
  have hother {q : Char} (hq : q ≠ l.quote) (more : List Char) :
      startsWith (q :: more) l.text = false := by
    rw [l.text_eq_cons]
    exact startsWith_of_ne hq _ _
  obtain ⟨quote, triple, body, hquote, hbody⟩ := l
  have hsingle (hone : triple = false) :
      startsWith [quote, quote, quote] (StringLiteral.text ⟨quote, triple, body, hquote, hbody⟩) =
        false := by
    subst hone
    exact startsWith_single hquote hbody fun _ => (Option.some_ne_none quote).symm
  have hne : '\'' ≠ '"' := by decide
  rcases hquote with rfl | rfl
  · rw [hnext (hother hne _)]
    cases triple with
    | true => exact hfound _
    | false =>
      rw [hnext (hsingle rfl), hnext (hother hne _)]
      exact hfound _
  · cases triple with
    | true => exact hfound _
    | false =>
      rw [hnext (hsingle rfl), hnext (hother hne.symm _)]
      exact hfound _

/-- A piece is taken apart into its letters, in lower case, and its body. -/
theorem splitLiteral?_text (p : Piece) :
    splitLiteral? p.text = some ⟨lowerAscii p.letters, p.quoted.body⟩ := by
  have hquote : isPrefixLetter p.quoted.quote = false := by
    rcases p.quoted.isQuote with h | h <;> rw [h] <;> decide
  have hletters : (p.letters ++ p.quoted.text).takeWhile isPrefixLetter = p.letters := by
    rw [List.takeWhile_append_of_pos (List.all_eq_true.mp p.areLetters), p.quoted.text_eq_cons,
      List.takeWhile_cons_of_neg (by rw [hquote]; exact Bool.false_ne_true), List.append_nil]
  rw [splitLiteral?, Piece.text, String.toList_ofList, hletters, List.drop_left]
  exact congrArg (Option.map fun body => (⟨lowerAscii p.letters, body⟩ : StringParts))
    (findSome?_between p.quoted)

/-! ## Values of pieces -/

section Values

variable {p : Piece} {text : List Char}

theorem has_of_isPlain (h : p.IsPlain) {letter : Char} (hletter : letter ≠ 'u') :
    StringParts.has ⟨lowerAscii p.letters, p.quoted.body⟩ letter = false := by
  simp only [Piece.IsPlain, List.mem_cons, List.not_mem_nil, or_false] at h
  rcases h with h | h | h <;> simp [StringParts.has, lowerAscii, h, hletter]

/-- A literal with a single letter in front has that letter and no other. -/
theorem has_of_sole {lower upper : Char} (h : p.letters ∈ [[lower], [upper]])
    (hlower : lower.toLower = lower) (hupper : upper.toLower = lower) (letter : Char) :
    StringParts.has ⟨lowerAscii p.letters, p.quoted.body⟩ letter = decide (letter = lower) := by
  simp only [List.mem_cons, List.not_mem_nil, or_false] at h
  rcases h with h | h <;> simp [StringParts.has, lowerAscii, h, hlower, hupper]

theorem has_of_isRaw (h : p.IsRaw) (letter : Char) :
    StringParts.has ⟨lowerAscii p.letters, p.quoted.body⟩ letter = decide (letter = 'r') :=
  has_of_sole h rfl rfl letter

theorem has_of_mem {c letter : Char} (h : c ∈ p.letters) (hlower : c.toLower = letter) :
    StringParts.has ⟨lowerAscii p.letters, p.quoted.body⟩ letter = true :=
  hlower ▸ List.contains_iff_mem.mpr (List.mem_map_of_mem h)

theorem decodePiece_of_denotes (h : p.Denotes text) :
    decodePiece p.text = .ok (some (pointsOf text)) := by
  rw [decodePiece, splitLiteral?_text]
  dsimp only
  cases h with
  | plain hplain hspells =>
    rw [has_of_isPlain hplain (by decide), has_of_isPlain hplain (by decide),
      has_of_isPlain hplain (by decide), decodeEscapes_of_spellsText hspells]
    rfl
  | raw hraw =>
    rw [has_of_isRaw hraw, has_of_isRaw hraw, has_of_isRaw hraw]
    rfl

end Values

section Join

variable {decode : String → Except Failure (Option (List Nat))}

theorem joinPieces_cons_of_value {piece : String} {points : List Nat}
    (h : decode piece = .ok (some points)) (pieces : List String) :
    joinPieces decode (piece :: pieces) = do
      return (← joinPieces decode pieces).map (points ++ ·) := by
  rw [joinPieces, h]
  rfl

/-- Pieces that all have a value are joined to the value of the whole. -/
theorem joinPieces_of_values {pieces : List Piece} {texts : List (List Char)}
    (h : List.Forall₂ (fun p text => decode p.text = .ok (some (pointsOf text))) pieces texts) :
    joinPieces decode (pieces.map Piece.text) = .ok (some (pointsOf texts.flatten)) := by
  induction h with
  | nil => rfl
  | cons hpiece _ ih =>
    rw [List.map_cons, joinPieces_cons_of_value hpiece, ih, List.flatten_cons, pointsOf, pointsOf,
      pointsOf, List.map_append]
    rfl

/-- A piece without a value leaves the whole without one, if those in front of it can be read. -/
theorem joinPieces_eq_none {before after : List String} {piece : String}
    (hbefore : ∀ other ∈ before, ∃ points, decode other = .ok points)
    (hpiece : decode piece = .ok none) :
    joinPieces decode (before ++ piece :: after) = .ok none := by
  induction before with
  | nil =>
    rw [List.nil_append, joinPieces, hpiece]
    rfl
  | cons other before ih =>
    obtain ⟨⟨points, hother⟩, hbefore⟩ := List.forall_mem_cons.mp hbefore
    cases points with
    | none =>
      rw [List.cons_append, joinPieces, hother]
      rfl
    | some points =>
      rw [List.cons_append, joinPieces_cons_of_value hother, ih hbefore]
      rfl

end Join

theorem textOf_pointsOf (cs : List Char) :
    textOf (some (pointsOf cs)) = some (String.ofList cs) := by
  rw [textOf, Option.map_some, textOfPoints_pointsOf]

/-! ## Literals -/

/-- Side by side the pieces denote the text. -/
def DenoteTogether (pieces : List Piece) (text : List Char) : Prop :=
  ∃ texts : List (List Char), List.Forall₂ Piece.Denotes pieces texts ∧ texts.flatten = text

namespace Piece

/-- A format literal or one of bytes. -/
def IsMarked (p : Piece) : Prop :=
  ∃ letter ∈ p.letters, letter.toLower = 'f' ∨ letter.toLower = 'b'

/-- No escape that is read names a code point beyond the last one. -/
def IsReadable (p : Piece) : Prop :=
  (∃ letter ∈ p.letters, letter.toLower = 'r') ∨ ¬HasLargeEscape p.quoted.body

end Piece

theorem decodePiece_of_isMarked {p : Piece} (h : p.IsMarked) : decodePiece p.text = .ok none := by
  have hmarked : (StringParts.has ⟨lowerAscii p.letters, p.quoted.body⟩ 'f' ||
      StringParts.has ⟨lowerAscii p.letters, p.quoted.body⟩ 'b') = true := by
    obtain ⟨letter, hletter, hlower | hlower⟩ := h
    · rw [has_of_mem hletter hlower, Bool.true_or]
    · rw [has_of_mem hletter hlower, Bool.or_true]
  rw [decodePiece, splitLiteral?_text]
  dsimp only
  rw [if_pos hmarked]
  rfl

theorem exists_decodePiece {p : Piece} (h : p.IsReadable) :
    ∃ points, decodePiece p.text = .ok points := by
  refine (describes_decodePiece p.text).reads.succeeds ?_
  rw [plainPieceTexts, splitLiteral?_text]
  dsimp only
  split
  · exact decodes_nil
  · rcases h with ⟨letter, hletter, hlower⟩ | hsmall
    · rw [has_of_mem hletter hlower]
      exact decodes_nil
    · rw [textsOf]
      split
      · exact decodes_nil
      · exact decodes_cons.mpr ⟨hsmall, decodes_nil⟩

/-- A text can be spelled in any way, and in any number of plain pieces side by side: reading them
gives the text.  A raw piece stands for what it holds.  One format literal or literal of bytes
among the pieces, and there is no value. -/
theorem string?_undoes_spelling (e : Expr) :
    (∀ (pieces : List Piece) (text : String), e.form = .strings (pieces.map Piece.text) →
      DenoteTogether pieces text.toList → e.string? = .ok (some text)) ∧
    (∀ (before : List Piece) (marked : Piece) (after : List String),
      e.form = .strings (before.map Piece.text ++ marked.text :: after) →
      (∀ p ∈ before, p.IsReadable) → marked.IsMarked → e.string? = .ok none) := by
  constructor
  · rintro pieces text hform ⟨texts, hpieces, hflat⟩
    have hjoined := joinPieces_of_values (hpieces.imp fun _ _ => decodePiece_of_denotes)
    rw [Expr.string?, hform]
    dsimp only
    rw [decodePieces, hjoined, hflat]
    exact congrArg Except.ok ((textOf_pointsOf text.toList).trans (by rw [String.ofList_toList]))
  · intro before marked after hform hbefore hmarked
    have hnone : joinPieces decodePiece (before.map Piece.text ++ marked.text :: after) =
        .ok none := by
      refine joinPieces_eq_none ?_ (decodePiece_of_isMarked hmarked)
      rintro _ hother
      obtain ⟨p, hp, rfl⟩ := List.mem_map.mp hother
      exact exists_decodePiece (hbefore p hp)
    rw [Expr.string?, hform]
    dsimp only
    rw [decodePieces, hnone]
    rfl

theorem isBody_escaped : IsBody '\'' false ['\\', '\'', '\\', '\n', '\\', 'x', '4', '1'] :=
  @IsBody.escaped _ _ 0 _ _ (Nat.le_refl 0) (@IsBody.escaped _ _ 0 _ _ (Nat.le_refl 0)
    (@IsBody.escaped _ _ 0 _ _ (Nat.le_refl 0) (.of_ordinary rfl)))

theorem isBody_quote : IsBody '"' true ['a', '"', 'b'] :=
  @IsBody.char _ _ 0 _ _ (Nat.zero_le 2) (by decide) (by decide) (by decide)
    (@IsBody.char _ _ 1 _ _ (by decide) (by decide) (by decide) (by decide) .nil)

theorem isBody_backslash : IsBody '\'' false ['\\', 'd'] :=
  @IsBody.escaped _ _ 0 _ _ (Nat.le_refl 0) .nil

theorem string?_undoes_spelling_mixed :
    (Expr.mk "" (.strings ["'\\'\\\n\\x41'", "U\"\"\"a\"b\"\"\"", "R'\\d'"])).string? =
      .ok (some "'Aa\"b\\d") ∧
    (Expr.mk "" (.strings ["R'\\d'", "rB'\\d'", "'"])).string? = .ok none := by
  let escaped : Piece := ⟨[], ⟨'\'', false, _, .inr rfl, isBody_escaped⟩, rfl⟩
  let triple : Piece := ⟨['U'], ⟨'"', true, _, .inl rfl, isBody_quote⟩, rfl⟩
  let raw : Piece := ⟨['R'], ⟨'\'', false, _, .inr rfl, isBody_backslash⟩, rfl⟩
  let bytes : Piece := ⟨['r', 'B'], ⟨'\'', false, _, .inr rfl, isBody_backslash⟩, rfl⟩
  have hescaped : escaped.Denotes ['\'', 'A'] :=
    .plain (by decide) (.short (by decide) (.continued
      (@SpellsText.numeric 'x' 'A' [4, 1] ['4', '1'] [] [] (by decide) (by decide) (by decide)
        .nil)))
  have htriple : triple.Denotes ['a', '"', 'b'] := .plain (by decide) (.of_ordinary (by decide))
  have hraw : raw.Denotes ['\\', 'd'] := .raw (by decide)
  refine ⟨(string?_undoes_spelling _).1 [escaped, triple, raw] _ rfl
    ⟨_, .cons hescaped (.cons htriple (.cons hraw .nil)), rfl⟩, ?_⟩
  refine (string?_undoes_spelling _).2 [raw] bytes ["'"] rfl ?_ ⟨'B', by decide, by decide⟩
  exact List.forall_mem_singleton.mpr (.inl ⟨'R', by decide, by decide⟩)

end Python
end ApiSync
