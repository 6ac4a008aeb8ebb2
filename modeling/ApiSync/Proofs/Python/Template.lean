import ApiSync.Proofs.Python.Spelling
/-!
# Templates of paths

The template of a path is text with places for the version.  It is spelled with literals side by
side: in a format literal the braces of the text are doubled and a place for the version is a field,
a plain literal holds text only.  Reading the literals fills the version in.
-/

namespace ApiSync
namespace Python

open Text

inductive Segment where
  | chunk (text : List Char)
  | version
deriving DecidableEq, Repr

namespace Segment

/-- What a segment stands for in a path. -/
def value : Segment → List Char
  | .chunk text => text
  | .version => ['v', '1']

/-- The characters of a segment, where the version counts for one that has no character.  So a
chunk that is cut in two is the same template. -/
def letters : Segment → List (Option Char)
  | .chunk text => text.map some
  | .version => [none]

end Segment

def fillIn : Option Char → List Char
  | some c => [c]
  | none => ['v', '1']

theorem fillIn_chunk (text : List Char) : (text.map some).flatMap fillIn = text := by
  rw [List.flatMap_map]
  exact List.flatMap_singleton' text

theorem fillIn_letters (template : List Segment) :
    (template.flatMap Segment.letters).flatMap fillIn = template.flatMap Segment.value := by
  rw [List.flatMap_assoc]
  congr
  funext segment
  cases segment with
  | chunk text => exact fillIn_chunk text
  | version => rfl

/-! ## Format literals -/

/-- Braces are written twice. -/
def doubled (cs : List Char) : List Char :=
  cs.flatMap fun c => if c = '{' ∨ c = '}' then [c, c] else [c]

/-- The name of the version between spaces. -/
def versionField (before after : Nat) : List Char :=
  List.replicate before ' ' ++ ("API_VERSION".toList ++ List.replicate after ' ')

/-- The body of a format literal spells a part of a template. -/
inductive SpellsFormat : List Char → List (Option Char) → Prop
  | nil : SpellsFormat [] []
  | text {source text body : List Char} {letters : List (Option Char)}
      (hsource : SpellsText source text) (hrest : SpellsFormat body letters) :
      SpellsFormat (doubled source ++ body) (text.map some ++ letters)
  | version (before after : Nat) {body : List Char} {letters : List (Option Char)}
      (hrest : SpellsFormat body letters) :
      SpellsFormat ('{' :: (versionField before after ++ '}' :: body)) (none :: letters)

def Piece.IsFormat (p : Piece) : Prop := p.letters ∈ [['f'], ['F']]

instance (p : Piece) : Decidable p.IsFormat := inferInstanceAs (Decidable (_ ∈ _))

/-- A piece spells a part of a template: a format literal does so with fields and doubled braces,
any other literal holds text only. -/
inductive Piece.Spells : Piece → List (Option Char) → Prop
  | text {p : Piece} {text : List Char} (hdenotes : p.Denotes text) : Spells p (text.map some)
  | format {p : Piece} {letters : List (Option Char)} (hformat : p.IsFormat)
      (hbody : SpellsFormat p.quoted.body letters) : Spells p letters

/-- Side by side the pieces spell the template. -/
def SpellTogether (pieces : List Piece) (template : List Segment) : Prop :=
  ∃ parts : List (List (Option Char)), List.Forall₂ Piece.Spells pieces parts ∧
    parts.flatten = template.flatMap Segment.letters

/-! ## Taking a body apart -/

theorem formatPartsFrom_doubled (cs rest : List Char) :
    formatPartsFrom .text (doubled cs ++ rest) =
      cs.foldr FormatPart.consChar (formatPartsFrom .text rest) := by
  induction cs with
  | nil => rfl
  | cons c cs ih =>
    rw [List.foldr_cons, ← ih, doubled, List.flatMap_cons, List.append_assoc, ← doubled]
    by_cases hc : c = '{' ∨ c = '}'
    · have htwice : ((c = '{' || c = '}') && (c :: (doubled cs ++ rest)).head? = some c) =
          true := by
        simpa using hc
      rw [if_pos hc, List.cons_append, List.cons_append, List.nil_append, formatPartsFrom,
        if_pos htwice, formatPartsFrom]
    · obtain ⟨hopen, hclose⟩ := not_or.mp hc
      have hsingle : ((c = '{' || c = '}') && (doubled cs ++ rest).head? = some c) = false := by
        simp [hopen, hclose]
      rw [if_neg hc, List.cons_append, List.nil_append, formatPartsFrom, hsingle,
        if_neg Bool.false_ne_true, if_neg hopen]

theorem resolveParts_foldr (raw : Bool) (pending cs : List Char) (parts : List FormatPart) :
    resolveParts raw pending (cs.foldr FormatPart.consChar parts) =
      resolveParts raw (pending ++ cs) parts := by
  induction cs generalizing pending with
  | nil => rw [List.append_nil]; rfl
  | cons c cs ih =>
    have hchar : ∀ parts : List FormatPart, resolveParts raw pending (FormatPart.consChar c parts) =
        resolveParts raw (pending ++ [c]) parts := by
      intro parts
      rw [FormatPart.consChar.eq_def]
      split
      · next text rest => rw [resolveParts, resolveParts, List.append_assoc]; rfl
      · rw [resolveParts]
    rw [List.foldr_cons, hchar, ih, List.append_assoc]
    rfl

/-- The name of a field ends at the first closing brace. -/
theorem formatPartsFrom_name {name : List Char} (h : '}' ∉ name) (reversed rest : List Char) :
    formatPartsFrom (.field reversed) (name ++ '}' :: rest) =
      .field (reversed.reverse ++ name) :: formatPartsFrom .text rest := by
  induction name generalizing reversed with
  | nil => rw [List.append_nil]; rfl
  | cons c name ih =>
    obtain ⟨hc, hname⟩ := not_or.mp (List.mem_cons.not.mp h)
    rw [List.cons_append, formatPartsFrom, if_neg (Ne.symm hc), ih hname, List.reverse_cons,
      List.append_assoc]
    rfl

theorem not_mem_versionField (before after : Nat) : '}' ∉ versionField before after := by
  have hspaces (n : Nat) : '}' ∉ List.replicate n ' ' :=
    fun h => absurd (List.eq_of_mem_replicate h) (by decide)
  rw [versionField, List.mem_append, List.mem_append, not_or, not_or]
  exact ⟨hspaces before, by decide, hspaces after⟩

theorem versionField_eq_cons (before after : Nat) :
    ∃ c rest, versionField before after = c :: rest ∧ c ≠ '{' := by
  cases before with
  | zero => exact ⟨'A', _, rfl, by decide⟩
  | succ n => exact ⟨' ', _, rfl, by decide⟩

/-- The brace of a field is not taken for a doubled one. -/
theorem formatPartsFrom_version (before after : Nat) (rest : List Char) :
    formatPartsFrom .text ('{' :: (versionField before after ++ '}' :: rest)) =
      .field (versionField before after) :: formatPartsFrom .text rest := by
  have hname := formatPartsFrom_name (not_mem_versionField before after) [] rest
  obtain ⟨c, name, hcons, hc⟩ := versionField_eq_cons before after
  have hsingle : ((('{' : Char) = '{' || ('{' : Char) = '}') &&
      (versionField before after ++ '}' :: rest).head? = some '{') = false := by
    simp [hcons, hc]
  rw [formatPartsFrom, hsingle, if_neg Bool.false_ne_true, if_pos rfl]
  exact hname

theorem trim_versionField (before after : Nat) :
    trim (versionField before after) = "API_VERSION".toList := by
  have hblank : ∀ c ∈ List.replicate before ' ', isBlank c = true :=
    fun c hc => List.eq_of_mem_replicate hc ▸ by decide
  rw [versionField, trim_append_left hblank]
  induction after with
  | zero => decide
  | succ n ih =>
    rw [List.replicate_succ', ← List.append_assoc, trim_append_of_blank (by decide), ih]

theorem placeholder?_versionField (before after : Nat) :
    placeholder? (versionField before after) = some "v1" := by
  rw [placeholder?, trim_versionField]
  rfl

/-! ## Reading templates -/

/-- The text that is pending is decoded when a field is met or the body ends, so it must not end
inside an escape. -/
theorem resolveParts_of_spellsFormat {body : List Char} {letters : List (Option Char)}
    (h : SpellsFormat body letters) {source text : List Char} (hsource : SpellsText source text) :
    resolveParts false source (formatPartsFrom .text body) =
      .ok (some (pointsOf (text ++ letters.flatMap fillIn))) := by
  induction h generalizing source text with
  | nil =>
    have hend : formatPartsFrom .text [] = [] := rfl
    rw [hend, resolveParts, decodeText, if_neg Bool.false_ne_true,
      decodeEscapes_of_spellsText hsource, List.flatMap_nil, List.append_nil]
    rfl
  | text hmore _ ih =>
    rw [formatPartsFrom_doubled, resolveParts_foldr, ih (hsource.append hmore), List.flatMap_append,
      fillIn_chunk, List.append_assoc]
  | version before after _ ih =>
    rw [formatPartsFrom_version, resolveParts, placeholder?_versionField]
    dsimp only
    rw [decodeText, if_neg Bool.false_ne_true, decodeEscapes_of_spellsText hsource, ih .nil,
      List.flatMap_cons]
    simp only [pointsOf, List.map_append, List.nil_append]
    rw [← List.append_assoc]
    rfl

section Pieces

variable {p : Piece}

/-- In a path, a literal that is no f-string has the code points that it has elsewhere. -/
theorem pathPiece_eq_decodePiece {text : String} {parts : StringParts}
    (hsplit : splitLiteral? text = some parts) (hformat : parts.has 'f' = false) :
    pathPiece text = decodePiece text := by
  rw [pathPiece, decodePiece, hsplit]
  dsimp only
  rw [hformat, Bool.false_or, if_neg Bool.false_ne_true, decodeText]
  split
  · rfl
  · split <;> rfl

theorem pathPiece_of_denotes {text : List Char} (h : p.Denotes text) :
    pathPiece p.text = .ok (some (pointsOf text)) := by
  rw [pathPiece_eq_decodePiece (splitLiteral?_text p), decodePiece_of_denotes h]
  cases h with
  | plain hplain _ => exact has_of_isPlain hplain (by decide)
  | raw hraw => exact has_of_isRaw hraw 'f'

theorem has_of_isFormat (h : p.IsFormat) (letter : Char) :
    StringParts.has ⟨lowerAscii p.letters, p.quoted.body⟩ letter = decide (letter = 'f') :=
  has_of_sole h rfl rfl letter

theorem pathPiece_of_spells {letters : List (Option Char)} (h : p.Spells letters) :
    pathPiece p.text = .ok (some (pointsOf (letters.flatMap fillIn))) := by
  cases h with
  | text hdenotes =>
    rw [fillIn_chunk]
    exact pathPiece_of_denotes hdenotes
  | format hformat hbody =>
    rw [pathPiece, splitLiteral?_text]
    dsimp only
    rw [has_of_isFormat hformat, has_of_isFormat hformat, has_of_isFormat hformat]
    exact resolveParts_of_spellsFormat hbody .nil

end Pieces

/-- However a template is spelled, the path that is read from the literals is its text with the
version filled in. -/
theorem path?_fills_template {e : Expr} {pieces : List Piece} {template : List Segment}
    (hform : e.form = .strings (pieces.map Piece.text)) (h : SpellTogether pieces template) :
    e.path? = .ok (some (String.ofList (template.flatMap Segment.value))) := by
  obtain ⟨parts, hpieces, hflat⟩ := h
  have hvalues : List.Forall₂ (fun p text => pathPiece p.text = .ok (some (pointsOf text))) pieces
      (parts.map fun letters => letters.flatMap fillIn) :=
    List.forall₂_map_right_iff.mpr (hpieces.imp fun _ _ => pathPiece_of_spells)
  have htext : (parts.map fun letters => letters.flatMap fillIn).flatten =
      template.flatMap Segment.value := by
    rw [← fillIn_letters, ← hflat, ← List.flatMap_id, ← List.flatMap_id, List.flatMap_map,
      List.flatMap_assoc]
    rfl
  rw [Expr.path?, hform]
  dsimp only
  rw [pathPieces, joinPieces_of_values hvalues, htext]
  exact congrArg Except.ok (textOf_pointsOf _)

theorem isBody_version : IsBody '"' false
    ('\\' :: '\\' :: '{' :: (versionField 1 0 ++ ['}', '}', '}'])) :=
  @IsBody.escaped _ _ 0 _ _ (Nat.le_refl 0) (.of_ordinary rfl)

theorem path?_fills_template_between_braces :
    (Expr.mk "" (.strings ["'/\x7b'", "F\"\\\\\x7b API_VERSION\x7d\x7d\x7d\""])).path? =
      .ok (some "/\x7b\\v1\x7d") := by
  let brace : Piece := ⟨[], ⟨'\'', false, ['/', '{'], .inr rfl, .of_ordinary rfl⟩, rfl⟩
  let version : Piece := ⟨['F'], ⟨'"', false, _, .inl rfl, isBody_version⟩, rfl⟩
  have hbrace : brace.Spells [some '/', some '{'] :=
    .text (.plain (by decide) (.of_ordinary (by decide)))
  have hslash : SpellsText ['\\', '\\'] ['\\'] := .short (by decide) .nil
  have hclose : SpellsText ['}'] ['}'] := .of_ordinary (by decide)
  have hversion : version.Spells [some '\\', none, some '}'] :=
    .format (by decide) (.text hslash (.version 1 0 (.text hclose .nil)))
  have htogether : SpellTogether [brace, version]
      [.chunk ['/', '{', '\\'], .version, .chunk ['}']] :=
    ⟨_, .cons hbrace (.cons hversion .nil), rfl⟩
  exact path?_fills_template rfl htogether

end Python
end ApiSync
