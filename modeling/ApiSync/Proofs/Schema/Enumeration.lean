import ApiSync.Proofs.Annotation.NullSpellings
import ApiSync.Proofs.Text.Ascii
import ApiSync.Proofs.Text.Order
import ApiSync.Schema
/-!
# Enumerations of tokens

The tokens of an enumeration may be quoted or bare and may have blanks around them.  Whichever way
they are put down, and whatever stands around the enumeration, the schema lists each of them once
and in ascending order: it tells which tokens there are, and nothing else.
-/

namespace ApiSync

namespace Annotation

open Text

/-! ## Tokens as they are put down -/

/-- The blanks above ASCII. -/
def highBlanks : List Nat :=
  [0xa0, 0x1680, 0x2028, 0x2029, 0x202f, 0x205f, 0x3000, 0xfeff] ++ List.range' 0x2000 11

theorem mem_highBlanks {c : Char} (hc : ¬IsAscii c) (h : isBlank c = true) :
    c.toNat ∈ highBlanks := by
  have hnat : ¬c.toNat < 128 := hc
  simp only [isBlank, Bool.or_eq_true, Bool.and_eq_true, decide_eq_true_eq] at h
  simp only [highBlanks, List.mem_append, List.mem_cons, List.mem_range'_1]
  omega

theorem isEnumChar_of_not_isAscii {c : Char} (hc : ¬IsAscii c) :
    isEnumChar c = letterRanges.member c.toNat := by
  have hother : ∀ d, IsAscii d → decide (c = d) = false := by
    rintro d hd
    refine decide_eq_false ?_
    rintro rfl
    exact hc hd
  have habove : ¬c.toNat < 128 := hc
  rw [isEnumChar, hother '_' (by decide), hother '.' (by decide), hother '-' (by decide),
    Bool.or_false, Bool.or_false, Bool.or_false, isLetterOrNumber, if_neg habove]

/-- No character of a token is blank. -/
theorem isBlank_of_isEnumChar {c : Char} (h : isEnumChar c = true) : isBlank c = false := by
  by_cases hc : IsAscii c
  · have hascii : ∀ {c : Char}, IsAscii c → isEnumChar c = true → isBlank c = false :=
      forall_ascii (P := fun c => isEnumChar c = true → isBlank c = false) (by decide +kernel)
    exact hascii hc h
  · have hnone : ∀ n ∈ highBlanks, letterRanges.member n = false := by decide +kernel
    cases hblank : isBlank c with
    | false => rfl
    | true =>
      rw [isEnumChar_of_not_isAscii hc, hnone _ (mem_highBlanks hc hblank)] at h
      cases h

/-- A token stands bare or between quotes of one kind. -/
inductive Quoting where
  | bare
  | single
  | double

def Quoting.around (token : List Char) : Quoting → List Char
  | .bare => token
  | .single => '\'' :: (token ++ ['\''])
  | .double => '"' :: (token ++ ['"'])

/-- A token as it is put down between two commas. -/
structure WrittenToken where
  token : List Char
  quoting : Quoting
  before : List Char
  after : List Char
  nonempty : token ≠ []
  plain : ∀ c ∈ token, isEnumChar c = true
  blankBefore : ∀ c ∈ before, isBlank c = true
  blankAfter : ∀ c ∈ after, isBlank c = true

namespace WrittenToken

def name (w : WrittenToken) : String := String.ofList w.token

def text (w : WrittenToken) : List Char := w.before ++ w.quoting.around w.token ++ w.after

theorem ne_of_mem_token (w : WrittenToken) {c d : Char} (hc : c ∈ w.token)
    (hd : isEnumChar d = false) : c ≠ d := by
  rintro rfl
  rw [w.plain c hc] at hd
  cases hd

/-- What stands in a piece is blank, a quote or in the token. -/
theorem not_mem_text (w : WrittenToken) {c : Char} (hblank : isBlank c = false)
    (henum : isEnumChar c = false) (hsingle : c ≠ '\'') (hdouble : c ≠ '"') : c ∉ w.text := by
  have htoken : c ∉ w.token := fun hc => w.ne_of_mem_token hc henum rfl
  have hbefore : c ∉ w.before := fun hc => by rw [w.blankBefore c hc] at hblank; cases hblank
  have hafter : c ∉ w.after := fun hc => by rw [w.blankAfter c hc] at hblank; cases hblank
  have haround : c ∉ w.quoting.around w.token := by
    cases w.quoting <;> simp [Quoting.around, htoken, hsingle, hdouble]
  simp [text, hbefore, hafter, haround]

theorem trim_around (w : WrittenToken) :
    trim (w.quoting.around w.token) = w.quoting.around w.token := by
  have htoken : ∀ c ∈ w.token, isBlank c = false := fun c hc => isBlank_of_isEnumChar (w.plain c hc)
  cases w.quoting with
  | bare =>
    exact trim_eq_self_iff.mpr
      ⟨fun c hc => htoken c (List.mem_of_mem_head? hc),
        fun c hc => htoken c (List.mem_of_mem_getLast? hc)⟩
  | single => exact trim_of_ends (by decide) (by decide) w.token
  | double => exact trim_of_ends (by decide) (by decide) w.token

theorem trim_text (w : WrittenToken) : trim w.text = w.quoting.around w.token := by
  rw [text, trim_append_right w.blankAfter, trim_append_left w.blankBefore, w.trim_around]

theorem stripQuotes_around (w : WrittenToken) : stripQuotes (w.quoting.around w.token) = w.token := by
  cases w.quoting with
  | bare =>
    obtain ⟨c, rest, htoken⟩ := List.exists_cons_of_ne_nil w.nonempty
    have hmem : c ∈ w.token := htoken ▸ List.mem_cons_self
    have hsingle : c ≠ '\'' := w.ne_of_mem_token hmem (by decide)
    have hdouble : c ≠ '"' := w.ne_of_mem_token hmem (by decide)
    rw [Quoting.around, htoken, stripQuotes]
    simp [hsingle, hdouble]
  | single => simp [Quoting.around, stripQuotes]
  | double => simp [Quoting.around, stripQuotes]

/-- However a token is put down, it is read. -/
theorem enumToken?_text (w : WrittenToken) : enumToken? w.text = some w.name := by
  rw [enumToken?, trim_text, stripQuotes_around]
  exact if_pos ⟨w.nonempty, List.all_eq_true.mpr w.plain⟩

end WrittenToken

/-! ## The enumeration in its text -/

/-- An enumeration with the texts around it. -/
def enumerationText (before : List Char) (tokens : List WrittenToken) (after : List Char) :
    List Char :=
  before ++ (literalMark ++ (joinWith [','] (tokens.map (·.text)) ++ ']' :: after))

theorem enumText?_enumerationText {before : List Char} (h : contains literalMark before = false)
    (tokens : List WrittenToken) (after : List Char) :
    enumText? (enumerationText before tokens after) =
      some (joinWith [','] (tokens.map (·.text))) := by
  have hinside : ']' ∉ joinWith [','] (tokens.map (·.text)) := by
    refine not_mem_joinWith (by decide) fun piece hpiece => ?_
    obtain ⟨w, -, rfl⟩ := List.mem_map.mp hpiece
    exact w.not_mem_text (by decide) (by decide) (by decide) (by decide)
  have hopen : cut? literalMark (enumerationText before tokens after) =
      some (before, joinWith [','] (tokens.map (·.text)) ++ ']' :: after) :=
    cut?_append_mark (by decide) h _
  have hclose : cut? [']'] (joinWith [','] (tokens.map (·.text)) ++ ']' :: after) =
      some (joinWith [','] (tokens.map (·.text)), after) :=
    cut?_append_mark List.not_mem_nil (contains_singleton_of_not_mem hinside) after
  rw [enumText?, hopen, Option.bind_some]
  dsimp only
  rw [hclose]
  rfl

theorem literalTokens_enumerationText {before : List Char}
    (h : contains literalMark before = false) (tokens : List WrittenToken) (after : List Char) :
    literalTokens (enumerationText before tokens after) =
      sortNames (distinct (tokens.map (·.name))) := by
  rw [literalTokens_eq, enumText?_enumerationText h]
  dsimp only
  by_cases hne : tokens = []
  · subst hne
    rfl
  · have hpieces : splitAt ',' (joinWith [','] (tokens.map (·.text))) = tokens.map (·.text) := by
      refine splitAt_joinWith (by simpa using hne) fun piece hpiece => ?_
      obtain ⟨w, -, rfl⟩ := List.mem_map.mp hpiece
      exact w.not_mem_text (by decide) (by decide) (by decide) (by decide)
    have hread : enumToken? ∘ (·.text) = some ∘ WrittenToken.name :=
      funext WrittenToken.enumToken?_text
    rw [hpieces, List.filterMap_map, hread, List.filterMap_eq_map]

end Annotation

namespace Schema

open Text Annotation

theorem literal?_eq_some {text : List Char} (h : literalTokens text ≠ []) :
    literal? text = some (.enumeration (literalTokens text) false) := by
  rw [literal?]
  split
  · next hnil => exact absurd hnil h
  · rfl

/-- Texts hold the same enumeration exactly if they hold the same tokens. -/
theorem literal?_eq_iff {text text' : List Char} :
    literal? text' = literal? text ↔ literalTokens text' = literalTokens text := by
  rw [literal?, literal?]
  cases literalTokens text' with
  | nil => cases literalTokens text <;> simp
  | cons => cases literalTokens text <;> simp

variable {before : List Char} {tokens : List WrittenToken}

/-- Tokens between commas, each put down in any way, are read as an enumeration that lists them once
and in ascending order, whatever stands around it; as an annotation the text has this schema.
Another such text is read alike exactly if it holds the same tokens. -/
theorem ofTypeText_enumerationText (h : contains literalMark before = false) (hne : tokens ≠ [])
    (after : List Char) : ∃ names, Ascending names ∧
      (∀ name, name ∈ names ↔ name ∈ tokens.map (·.name)) ∧
      literal? (enumerationText before tokens after) = some (.enumeration names false) ∧
      (enumeration names false).toFields = [("type", .str "string"), ("enum", .ofStrings names)] ∧
      ofTypeText (enumerationText before tokens after) = .enumeration names false ∧
      ∀ (before' : List Char) (tokens' : List WrittenToken) (after' : List Char),
        contains literalMark before' = false →
          (literal? (enumerationText before' tokens' after') =
              literal? (enumerationText before tokens after) ↔
            ∀ name, name ∈ tokens'.map (·.name) ↔ name ∈ tokens.map (·.name)) := by
  have htokens := literalTokens_enumerationText h tokens after
  have hsome : sortNames (distinct (tokens.map (·.name))) ≠ [] := by
    obtain ⟨w, hw⟩ := List.exists_mem_of_ne_nil tokens hne
    exact List.ne_nil_of_mem (mem_sortNames_distinct.mpr (List.mem_map_of_mem hw))
  have hliteral : literal? (enumerationText before tokens after) =
      some (.enumeration (sortNames (distinct (tokens.map (·.name)))) false) := by
    rw [literal?_eq_some (by rwa [htokens]), htokens]
  refine ⟨_, ascending_sortNames_distinct _, fun name => mem_sortNames_distinct, hliteral, rfl, ?_,
    fun before' tokens' after' h' => ?_⟩
  · rw [ofTypeText, hliteral]
  · rw [literal?_eq_iff, htokens, literalTokens_enumerationText h']
    exact sortNames_distinct_eq_iff

/-- A repeated token, once quoted and once bare. -/
def repeatedTokens : List WrittenToken :=
  [{ token := ['b'], quoting := .single, before := [' '], after := []
     nonempty := List.cons_ne_nil _ _, plain := List.forall_mem_singleton.mpr rfl
     blankBefore := List.forall_mem_singleton.mpr rfl, blankAfter := nofun },
    { token := ['a'], quoting := .bare, before := [], after := []
      nonempty := List.cons_ne_nil _ _, plain := List.forall_mem_singleton.mpr rfl
      blankBefore := nofun, blankAfter := nofun },
    { token := ['b'], quoting := .bare, before := [' '], after := []
      nonempty := List.cons_ne_nil _ _, plain := List.forall_mem_singleton.mpr rfl
      blankBefore := List.forall_mem_singleton.mpr rfl, blankAfter := nofun }]

theorem ofTypeText_repeatedTokens : ∃ names, Ascending names ∧
    (∀ name, name ∈ names ↔ name ∈ ["b", "a", "b"]) ∧
      ofTypeText "Optional[Literal[ 'b',a, b]]".toList = .enumeration names false := by
  have hbefore : contains literalMark "Optional[".toList = false := by decide
  have hne : repeatedTokens ≠ [] := List.cons_ne_nil _ _
  obtain ⟨names, hascending, hnames, -, -, hschema, -⟩ :=
    ofTypeText_enumerationText hbefore hne [']']
  exact ⟨names, hascending, hnames, hschema⟩

end Schema
end ApiSync
