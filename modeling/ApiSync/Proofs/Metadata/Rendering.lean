import ApiSync.Proofs.Metadata.Conflicts
import ApiSync.Proofs.Number.Numeral
/-!
# Rendered values are told apart

Reports show values as text, and sets of members are compared by their texts.  The text of a value
can be read back without a separator: a text in quotes ends at the first quote that is not escaped,
a list and a mapping end at their own bracket, and every other value is a word that goes on as long
as no comma or closing bracket comes.  So two values with the same text are the same, as long as
this is so for the numbers in them.
-/

namespace ApiSync
namespace Rendered

open Text

/-! ## Words -/

/-- The characters of values that are written without quotes and brackets. -/
def isBareChar (c : Char) : Bool := c.isAlphanum || c = '.' || c = '+' || c = '-'

/-- Whatever can follow a value: nothing, a comma or a closing bracket. -/
def Ends (rest : List Char) : Prop := ∀ c ∈ rest.head?, isBareChar c = false

structure IsBare (cs : List Char) : Prop where
  ne_nil : cs ≠ []
  chars : ∀ c ∈ cs, isBareChar c = true

theorem isBare_of_all {cs : List Char} (hne : cs ≠ []) (h : cs.all isBareChar = true) :
    IsBare cs := ⟨hne, List.all_eq_true.mp h⟩

theorem ends_cons {c : Char} (h : isBareChar c = false) (cs : List Char) : Ends (c :: cs) := by
  intro d hd
  obtain rfl : c = d := Option.some.inj hd
  exact h

/-- A word is cut off where it ends. -/
theorem bare_append_inj {a b r s : List Char} (ha : ∀ c ∈ a, isBareChar c = true)
    (hb : ∀ c ∈ b, isBareChar c = true) (hr : Ends r) (hs : Ends s) (h : a ++ r = b ++ s) :
    a = b ∧ r = s := by
  induction a generalizing b with
  | nil =>
    cases b with
    | nil => exact ⟨rfl, h⟩
    | cons d b =>
      have hend : isBareChar d = false := hr d (by rw [← List.nil_append r, h]; rfl)
      rw [hb d List.mem_cons_self] at hend
      cases hend
  | cons c a ih =>
    cases b with
    | nil =>
      have hend : isBareChar c = false := hs c (by rw [← List.nil_append s, ← h]; rfl)
      rw [ha c List.mem_cons_self] at hend
      cases hend
    | cons d b =>
      obtain ⟨rfl, htail⟩ := List.cons.inj h
      obtain ⟨rfl, hrest⟩ := ih (List.forall_mem_cons.mp ha).2 (List.forall_mem_cons.mp hb).2 htail
      exact ⟨rfl, hrest⟩

theorem isBareChar_of_isNumeralChar {c : Char} (h : Number.isNumeralChar c = true) :
    isBareChar c = true := by
  simp only [Number.isNumeralChar, isBareChar, Char.isAlphanum, Bool.or_eq_true,
    decide_eq_true_eq] at h ⊢
  rcases h with (((h | rfl) | rfl) | rfl) | rfl
  · exact Or.inl (Or.inl (Or.inl (Or.inr h)))
  all_goals decide

theorem isBare_number (n : Number) : IsBare n.text.toList := by
  rcases n.text_cases with h | h
  · obtain ⟨hne, hchars⟩ := (by decide : ∀ word ∈ ["NaN", "Infinity", "-Infinity"],
      word.toList ≠ [] ∧ word.toList.all isBareChar = true) _ h
    exact isBare_of_all hne hchars
  · exact ⟨h.ne_nil, fun c hc => isBareChar_of_isNumeralChar (h.chars c hc)⟩

/-- No number is written like one of the three other words. -/
theorem text_ne_word {word : String} (h : word ∈ ["None", "True", "False"]) (n : Number) :
    n.text ≠ word := by
  rintro rfl
  rcases n.text_cases with hn | hn
  · exact (by decide : ∀ word ∈ ["None", "True", "False"],
      word ∉ ["NaN", "Infinity", "-Infinity"]) _ h hn
  · exact (by decide : ∀ word ∈ ["None", "True", "False"],
      ¬word.toList.all Number.isNumeralChar = true) _ h (List.all_eq_true.mpr hn.chars)

/-! ## Texts in quotes -/

/-- A text that may stand in quotes of the kind: double quotes are not escaped. -/
def Quotable (quote : Char) (cs : List Char) : Prop :=
  quote = '\'' ∨ quote = '"' ∧ '"' ∉ cs

theorem quotable_quoteFor (cs : List Char) : Quotable (quoteFor cs) cs := by
  unfold quoteFor
  split
  · next h =>
    rw [Bool.and_eq_true, Bool.not_eq_true'] at h
    exact Or.inr ⟨rfl, by simpa using h.2⟩
  · exact Or.inl rfl

/-- The characters that are written with a backslash, and the letters behind it. -/
def escapes : List (Char × Char) := [('\\', '\\'), ('\n', 'n'), ('\'', '\'')]

/-- A character stands for itself, or it is written with a backslash and its letter. -/
theorem escapeChar_cases (quote c : Char) :
    escapeChar quote c = [c] ∧ c ≠ '\\' ∧ (quote = '\'' → c ≠ '\'') ∨
      ∃ letter, escapeChar quote c = ['\\', letter] ∧ (c, letter) ∈ escapes := by
  unfold escapeChar
  split
  · next h => exact Or.inr ⟨'\\', rfl, by rw [h]; decide⟩
  split
  · next h => exact Or.inr ⟨'n', rfl, by rw [h]; decide⟩
  split
  · next h =>
    obtain ⟨rfl, rfl⟩ : c = quote ∧ quote = '\'' := by simpa using h
    exact Or.inr ⟨'\'', rfl, by decide⟩
  · next hslash _ hquote =>
    refine Or.inl ⟨rfl, hslash, fun hq hc => hquote ?_⟩
    rw [hc, hq]
    rfl

/-- No character is written like the beginning of another one. -/
theorem escapeChar_append_inj {quote c d : Char} {r s : List Char}
    (h : escapeChar quote c ++ r = escapeChar quote d ++ s) : c = d ∧ r = s := by
  rcases escapeChar_cases quote c with ⟨hc, hcs, -⟩ | ⟨letter, hc, hmem⟩ <;>
    rcases escapeChar_cases quote d with ⟨hd, hds, -⟩ | ⟨other, hd, hmem'⟩ <;>
    rw [hc, hd] at h
  · exact List.cons.inj h
  · exact absurd (List.cons.inj h).1 hcs
  · exact absurd (List.cons.inj h).1.symm hds
  · obtain ⟨hletter, hrest⟩ := List.cons.inj (List.cons.inj h).2
    have hinj : (escapes.all fun e => escapes.all fun f => e.2 = f.2 → e.1 = f.1) = true := by
      decide
    have hsame := List.all_eq_true.mp (List.all_eq_true.mp hinj _ hmem) _ hmem'
    exact ⟨of_decide_eq_true hsame hletter, hrest⟩

/-- The closing quote is no beginning of a character. -/
theorem escapeChar_ne_quote {quote c : Char} {cs r s : List Char} (hq : Quotable quote (c :: cs)) :
    escapeChar quote c ++ r ≠ quote :: s := by
  intro h
  rcases escapeChar_cases quote c with ⟨hc, -, hsingle⟩ | ⟨letter, hc, -⟩ <;> rw [hc] at h
  · obtain rfl := (List.cons.inj h).1
    rcases hq with hquote | ⟨rfl, hmem⟩
    · exact hsingle hquote hquote
    · exact hmem List.mem_cons_self
  · obtain rfl := (List.cons.inj h).1
    rcases hq with hquote | ⟨hquote, -⟩
    · exact absurd hquote (by decide)
    · exact absurd hquote (by decide)

theorem Quotable.tail {quote c : Char} {cs : List Char} (h : Quotable quote (c :: cs)) :
    Quotable quote cs :=
  h.imp_right fun hd => ⟨hd.1, fun hmem => hd.2 (List.mem_cons_of_mem c hmem)⟩

/-- What is quoted ends at the closing quote. -/
theorem quoted_append_inj {quote : Char} {as bs r s : List Char} (ha : Quotable quote as)
    (hb : Quotable quote bs)
    (h : as.flatMap (escapeChar quote) ++ quote :: r =
      bs.flatMap (escapeChar quote) ++ quote :: s) :
    as = bs ∧ r = s := by
  induction as generalizing bs with
  | nil =>
    cases bs with
    | nil => exact ⟨rfl, (List.cons.inj h).2⟩
    | cons b bs =>
      rw [List.flatMap_cons, List.append_assoc] at h
      exact absurd h.symm (escapeChar_ne_quote hb)
  | cons a as ih =>
    cases bs with
    | nil =>
      rw [List.flatMap_cons, List.append_assoc] at h
      exact absurd h (escapeChar_ne_quote ha)
    | cons b bs =>
      rw [List.flatMap_cons, List.flatMap_cons, List.append_assoc, List.append_assoc] at h
      obtain ⟨rfl, htail⟩ := escapeChar_append_inj h
      obtain ⟨rfl, hrest⟩ := ih ha.tail hb.tail htail
      exact ⟨rfl, hrest⟩

theorem string_append (cs rest : List Char) :
    string cs ++ rest =
      quoteFor cs :: (cs.flatMap (escapeChar (quoteFor cs)) ++ quoteFor cs :: rest) := by
  rw [string, List.cons_append, List.cons_append, List.append_assoc, List.singleton_append]

theorem string_append_inj {as bs r s : List Char} (h : string as ++ r = string bs ++ s) :
    as = bs ∧ r = s := by
  rw [string_append, string_append] at h
  obtain ⟨hquote, htail⟩ := List.cons.inj h
  rw [← hquote] at htail
  exact quoted_append_inj (quotable_quoteFor as) (hquote ▸ quotable_quoteFor bs) htail

/-! ## How a value begins -/

/-- The quote or bracket that a value begins with, if it is not a word. -/
def opening? : Value → Option Char
  | .str s => some (quoteFor s.toList)
  | .list _ => some '['
  | .map _ => some '{'
  | _ => none

theorem isBare_chars {v : Value} (h : opening? v = none) : IsBare (chars v) := by
  cases v with
  | null => exact isBare_of_all (by simp [chars]) (by decide)
  | bool b => cases b <;> exact isBare_of_all (by simp [chars]) (by decide)
  | num n => exact isBare_number n
  | _ => cases h

theorem chars_of_opening {v : Value} {c : Char} (h : opening? v = some c) :
    isBareChar c = false ∧ ∃ cs, chars v = c :: cs := by
  cases v with
  | str s =>
    obtain rfl := Option.some.inj h
    refine ⟨?_, _, rfl⟩
    rcases quotable_quoteFor s.toList with hq | ⟨hq, -⟩
    · rw [hq]; rfl
    · rw [hq]; rfl
  | list vs =>
    obtain rfl := Option.some.inj h
    exact ⟨rfl, _, rfl⟩
  | map fields =>
    obtain rfl := Option.some.inj h
    exact ⟨rfl, _, rfl⟩
  | _ => cases h

/-- The first character of a value says whether it is a word, and else how it begins. -/
theorem opening?_congr {v w : Value} {r s : List Char} (h : chars v ++ r = chars w ++ s) :
    opening? v = opening? w := by
  have hfirst (u : Value) : ∃ c cs, chars u = c :: cs ∧
      opening? u = if isBareChar c then none else some c := by
    cases hu : opening? u with
    | none =>
      obtain ⟨hne, hchars⟩ := isBare_chars hu
      obtain ⟨c, cs, hcs⟩ := List.exists_cons_of_ne_nil hne
      rw [hcs] at hchars
      exact ⟨c, cs, hcs, (if_pos (hchars c List.mem_cons_self)).symm⟩
    | some c =>
      obtain ⟨hc, cs, hcs⟩ := chars_of_opening hu
      exact ⟨c, cs, hcs, (if_neg (by rw [hc]; exact Bool.false_ne_true)).symm⟩
  obtain ⟨c, cs, hcs, hv⟩ := hfirst v
  obtain ⟨d, ds, hds, hw⟩ := hfirst w
  rw [hcs, hds] at h
  obtain ⟨rfl, -⟩ := List.cons.inj h
  rw [hv, hw]

theorem opening?_string_ne {c : Char} (hc : c ∉ ['\'', '"']) (s : String) :
    opening? (.str s) ≠ some c := by
  intro h
  obtain rfl := Option.some.inj h
  rcases quotable_quoteFor s.toList with hq | ⟨hq, -⟩
  · exact hc (by rw [hq]; decide)
  · exact hc (by rw [hq]; decide)

theorem opening?_ne_closing (v : Value) : opening? v ≠ some ']' := by
  cases v with
  | str s => exact opening?_string_ne (by decide) s
  | _ => simp [opening?]

/-- A piece that a closing bracket cannot begin. -/
def Apart (closing : Char) (piece : List Char) : Prop := ∃ c cs, piece = c :: cs ∧ c ≠ closing

theorem apart_chars (v : Value) : Apart ']' (chars v) := by
  cases hv : opening? v with
  | none =>
    obtain ⟨hne, hchars⟩ := isBare_chars hv
    obtain ⟨c, cs, hcs⟩ := List.exists_cons_of_ne_nil hne
    refine ⟨c, cs, hcs, fun hc => ?_⟩
    have hbare := hchars c (hcs ▸ List.mem_cons_self)
    rw [hc] at hbare
    exact absurd hbare (by decide)
  | some c =>
    obtain ⟨-, cs, hcs⟩ := chars_of_opening hv
    exact ⟨c, cs, hcs, fun hc => opening?_ne_closing v (hc ▸ hv)⟩

theorem apart_entry (k : String) (rest : List Char) : Apart '}' (string k.toList ++ rest) := by
  rw [string_append]
  refine ⟨_, _, rfl, ?_⟩
  rcases quotable_quoteFor k.toList with h | ⟨h, -⟩
  · rw [h]; decide
  · rw [h]; decide

/-! ## Pieces between brackets -/

theorem joinWith_eq (sep piece : List Char) (pieces : List (List Char)) :
    joinWith sep (piece :: pieces) = piece ++ pieces.flatMap (sep ++ ·) := by
  induction pieces generalizing piece with
  | nil => rw [List.flatMap_nil, List.append_nil]; rfl
  | cons next rest ih =>
    rw [joinWith, ih, List.flatMap_cons, List.append_assoc, List.append_assoc]
    exact List.cons_ne_nil next rest

/-- What stands between brackets begins with a piece or ends at once. -/
theorem flatMap_of_joined {sep : List Char} {closing : Char} {ps qs : List (List Char)}
    (hp : ∀ p ∈ ps, Apart closing p) (hq : ∀ q ∈ qs, Apart closing q) {r s : List Char}
    (h : joinWith sep ps ++ closing :: r = joinWith sep qs ++ closing :: s) :
    ps.flatMap (sep ++ ·) ++ closing :: r = qs.flatMap (sep ++ ·) ++ closing :: s := by
  cases ps with
  | nil =>
    cases qs with
    | nil => exact h
    | cons q qs =>
      obtain ⟨c, cs, rfl, hne⟩ := hq q List.mem_cons_self
      rw [joinWith_eq] at h
      exact absurd (List.cons.inj h).1.symm hne
  | cons p ps =>
    cases qs with
    | nil =>
      obtain ⟨c, cs, rfl, hne⟩ := hp p List.mem_cons_self
      rw [joinWith_eq] at h
      exact absurd (List.cons.inj h).1 hne
    | cons q qs =>
      rw [joinWith_eq, joinWith_eq] at h
      rw [List.flatMap_cons, List.flatMap_cons]
      simp only [List.append_assoc] at h ⊢
      rw [h]

end Rendered

namespace Value

mutual

/-- The numbers inside a value. -/
def numbers : Value → List Number
  | .num n => [n]
  | .list vs => itemNumbers vs
  | .map fields => entryNumbers fields
  | _ => []

def itemNumbers : List Value → List Number
  | [] => []
  | v :: vs => numbers v ++ itemNumbers vs

def entryNumbers : Fields → List Number
  | [] => []
  | (_, v) :: rest => numbers v ++ entryNumbers rest

end

end Value

namespace Rendered

open Text
open Value (numbers itemNumbers entryNumbers)

/-- Numbers of one side and of the other that have the same text are the same. -/
def ToldApart (ms ns : List Number) : Prop := ∀ m ∈ ms, ∀ n ∈ ns, m.text = n.text → m = n

theorem ToldApart.append {ms ms' ns ns' : List Number} (h : ToldApart (ms ++ ms') (ns ++ ns')) :
    ToldApart ms ns ∧ ToldApart ms' ns' :=
  ⟨fun m hm n hn => h m (List.mem_append_left _ hm) n (List.mem_append_left _ hn),
    fun m hm n hn => h m (List.mem_append_right _ hm) n (List.mem_append_right _ hn)⟩

/-- Words stand for one value each. -/
theorem eq_of_bare {v w : Value} (hv : opening? v = none) (hw : opening? w = none)
    (hn : ToldApart v.numbers w.numbers) (h : chars v = chars w) : v = w := by
  have hword {word : String} (hmem : word ∈ ["None", "True", "False"]) (n : Number) :
      n.text.toList ≠ word.toList := fun heq => text_ne_word hmem n (String.toList_injective heq)
  cases v with
  | null =>
    cases w with
    | null => rfl
    | bool b => cases b <;> exact absurd h (by decide)
    | num n => exact absurd h.symm (hword (by decide) n)
    | _ => cases hw
  | bool a =>
    cases w with
    | null => cases a <;> exact absurd h (by decide)
    | bool b => cases a <;> cases b <;> first | rfl | exact absurd h (by decide)
    | num n => cases a <;> exact absurd h.symm (hword (by decide) n)
    | _ => cases hw
  | num m =>
    cases w with
    | null => exact absurd h (hword (by decide) m)
    | bool b => cases b <;> exact absurd h (hword (by decide) m)
    | num n =>
      have htext : m.text = n.text := String.toList_injective h
      rw [hn m List.mem_cons_self n List.mem_cons_self htext]
    | _ => cases hw
  | _ => cases hv

theorem chars_list_append (vs : List Value) (rest : List Char) :
    chars (.list vs) ++ rest = '[' :: (joinWith [',', ' '] (items vs) ++ ']' :: rest) := by
  rw [chars, List.cons_append, List.cons_append, List.append_assoc, List.singleton_append]

theorem chars_map_append (fields : Fields) (rest : List Char) :
    chars (.map fields) ++ rest =
      '{' :: (joinWith [',', ' '] (entries fields) ++ '}' :: rest) := by
  rw [chars, List.cons_append, List.cons_append, List.append_assoc, List.singleton_append]

theorem apart_items (vs : List Value) : ∀ p ∈ items vs, Apart ']' p := by
  induction vs with
  | nil => exact fun _ h => absurd h List.not_mem_nil
  | cons v vs ih => exact List.forall_mem_cons.mpr ⟨apart_chars v, ih⟩

theorem apart_entries (fields : Fields) : ∀ p ∈ entries fields, Apart '}' p := by
  induction fields with
  | nil => exact fun _ h => absurd h List.not_mem_nil
  | cons e rest ih =>
    obtain ⟨k, v⟩ := e
    exact List.forall_mem_cons.mpr ⟨apart_entry k _, ih⟩

/-- Behind a piece comes the separator or the closing bracket. -/
theorem ends_pieces {closing : Char} (hc : isBareChar closing = false) (ps : List (List Char))
    (rest : List Char) : Ends (ps.flatMap ([',', ' '] ++ ·) ++ closing :: rest) := by
  cases ps with
  | nil => exact ends_cons hc rest
  | cons p ps => exact ends_cons (by decide) _

mutual

/-- A value is cut off where it ends, and the text before determines it. -/
theorem chars_append_inj (v w : Value) (hn : ToldApart v.numbers w.numbers) {r s : List Char}
    (hr : Ends r) (hs : Ends s) (h : chars v ++ r = chars w ++ s) : v = w ∧ r = s := by
  have hopening := opening?_congr h
  have hbare (hv : opening? v = none) : v = w ∧ r = s := by
    have hw : opening? w = none := hopening ▸ hv
    obtain ⟨hchars, hrest⟩ :=
      bare_append_inj (isBare_chars hv).chars (isBare_chars hw).chars hr hs h
    exact ⟨eq_of_bare hv hw hn hchars, hrest⟩
  cases v with
  | str a =>
    cases w with
    | str b =>
      obtain ⟨hstring, hrest⟩ := string_append_inj h
      exact ⟨congrArg Value.str (String.toList_injective hstring), hrest⟩
    | list ws => exact absurd hopening (opening?_string_ne (by decide) a)
    | map fields => exact absurd hopening (opening?_string_ne (by decide) a)
    | _ => cases hopening
  | list vs =>
    cases w with
    | str b => exact absurd hopening.symm (opening?_string_ne (by decide) b)
    | list ws =>
      rw [chars_list_append, chars_list_append] at h
      obtain ⟨hitems, hrest⟩ := items_append_inj vs ws hn
        (flatMap_of_joined (apart_items vs) (apart_items ws) (List.cons.inj h).2)
      exact ⟨congrArg Value.list hitems, hrest⟩
    | _ => cases hopening
  | map fields =>
    cases w with
    | str b => exact absurd hopening.symm (opening?_string_ne (by decide) b)
    | map others =>
      rw [chars_map_append, chars_map_append] at h
      obtain ⟨hentries, hrest⟩ := entries_append_inj fields others hn
        (flatMap_of_joined (apart_entries fields) (apart_entries others) (List.cons.inj h).2)
      exact ⟨congrArg Value.map hentries, hrest⟩
    | _ => cases hopening
  | _ => exact hbare rfl

theorem items_append_inj (vs ws : List Value) (hn : ToldApart (itemNumbers vs) (itemNumbers ws))
    {r s : List Char} (h : (items vs).flatMap ([',', ' '] ++ ·) ++ ']' :: r =
      (items ws).flatMap ([',', ' '] ++ ·) ++ ']' :: s) : vs = ws ∧ r = s := by
  cases vs with
  | nil =>
    cases ws with
    | nil => exact ⟨rfl, (List.cons.inj h).2⟩
    | cons w ws => exact absurd (List.cons.inj h).1 (by decide)
  | cons v vs =>
    cases ws with
    | nil => exact absurd (List.cons.inj h).1 (by decide)
    | cons w ws =>
      have hpair := hn.append
      rw [items, items, List.flatMap_cons, List.flatMap_cons, List.append_assoc,
        List.append_assoc, List.append_assoc, List.append_assoc] at h
      obtain ⟨rfl, hrest⟩ := chars_append_inj v w hpair.1 (ends_pieces (by decide) _ _)
        (ends_pieces (by decide) _ _) (List.append_cancel_left h)
      obtain ⟨rfl, htail⟩ := items_append_inj vs ws hpair.2 hrest
      exact ⟨rfl, htail⟩

theorem entries_append_inj (fields others : Fields)
    (hn : ToldApart (entryNumbers fields) (entryNumbers others)) {r s : List Char}
    (h : (entries fields).flatMap ([',', ' '] ++ ·) ++ '}' :: r =
      (entries others).flatMap ([',', ' '] ++ ·) ++ '}' :: s) : fields = others ∧ r = s := by
  cases fields with
  | nil =>
    cases others with
    | nil => exact ⟨rfl, (List.cons.inj h).2⟩
    | cons e others => exact absurd (List.cons.inj h).1 (by decide)
  | cons d fields =>
    cases others with
    | nil => exact absurd (List.cons.inj h).1 (by decide)
    | cons e others =>
      obtain ⟨k, v⟩ := d
      obtain ⟨l, w⟩ := e
      have hpair := hn.append
      rw [entries, entries, List.flatMap_cons, List.flatMap_cons, List.append_assoc,
        List.append_assoc, List.append_assoc, List.append_assoc, List.append_assoc,
        List.append_assoc] at h
      obtain ⟨hkey, hvalue⟩ := string_append_inj (List.append_cancel_left h)
      obtain ⟨rfl, hrest⟩ := chars_append_inj v w hpair.1 (ends_pieces (by decide) _ _)
        (ends_pieces (by decide) _ _) (List.cons.inj (List.cons.inj hvalue).2).2
      obtain ⟨rfl, htail⟩ := entries_append_inj fields others hpair.2 hrest
      rw [String.toList_injective hkey]
      exact ⟨rfl, htail⟩

end

end Rendered

namespace Metadata

open Rendered (ToldApart)

/-! ## Members of a conflict -/

/-- The members that a value has in a conflict check: a value that is no list is one member. -/
def membersOf : Value → List Value
  | .list vs => vs
  | v => [v]

theorem renderedMembers_eq (v : Value) :
    renderedMembers (some v) = (membersOf v).map Value.rendered := by
  cases v <;> rfl

theorem rendered_inj {v w : Value} (hn : ToldApart v.numbers w.numbers)
    (h : v.rendered = w.rendered) : v = w := by
  have hnil : Rendered.Ends [] := fun _ hc => nomatch hc
  have hchars : Rendered.chars v = Rendered.chars w := String.ofList_injective h
  exact (Rendered.chars_append_inj v w hn hnil hnil (by rw [hchars])).1

theorem mem_itemNumbers {vs : List Value} {v : Value} (hv : v ∈ vs) {n : Number}
    (hn : n ∈ v.numbers) : n ∈ Value.itemNumbers vs := by
  induction vs with
  | nil => exact absurd hv List.not_mem_nil
  | cons u vs ih =>
    rcases List.mem_cons.mp hv with rfl | hrest
    · exact List.mem_append_left _ hn
    · exact List.mem_append_right _ (ih hrest)

theorem mem_numbers_of_member {v x : Value} (hx : x ∈ membersOf v) {n : Number}
    (hn : n ∈ x.numbers) : n ∈ v.numbers := by
  cases v with
  | list vs => exact mem_itemNumbers hx hn
  | _ => exact List.mem_singleton.mp hx ▸ hn

/-- Where numbers are told apart by their texts, so are values and the members of a conflict check:
two sets of members are the same only if they are the same set of values. -/
theorem rendering_is_injective (v w : Value) (hn : ToldApart v.numbers w.numbers) :
    (v.rendered = w.rendered → v = w) ∧
      (∀ x ∈ membersOf v, ∀ y ∈ membersOf w, x.rendered = y.rendered → x = y) ∧
      (memberSet (some v) = memberSet (some w) ↔ ∀ x, x ∈ membersOf v ↔ x ∈ membersOf w) := by
  have hmembers : ∀ x ∈ membersOf v, ∀ y ∈ membersOf w, x.rendered = y.rendered → x = y :=
    fun x hx y hy => rendered_inj fun m hm n hn' =>
      hn m (mem_numbers_of_member hx hm) n (mem_numbers_of_member hy hn')
  refine ⟨rendered_inj hn, hmembers, ?_⟩
  rw [memberSet_eq_iff, SameMembers, renderedMembers_eq, renderedMembers_eq]
  constructor
  · intro h x
    constructor
    · intro hx
      obtain ⟨y, hy, hyx⟩ := List.mem_map.mp ((h _).mp (List.mem_map_of_mem hx))
      exact hmembers x hx y hy hyx.symm ▸ hy
    · intro hx
      obtain ⟨y, hy, hyx⟩ := List.mem_map.mp ((h _).mpr (List.mem_map_of_mem hx))
      exact hmembers y hy x hx hyx ▸ hy
  · intro h text
    rw [List.mem_map, List.mem_map]
    exact exists_congr fun x => and_congr_left fun _ => h x

/-- A text that looks like two members, and two members. -/
def joinedTag : Value := .list [.str "a', 'b", .num (Number.ofNat 1)]

def splitTags : Value := .list [.str "a", .str "b", .num (Number.ofNat 10)]

theorem rendering_is_injective_joinedTag :
    ToldApart joinedTag.numbers splitTags.numbers ∧ joinedTag.rendered ≠ splitTags.rendered := by
  have hn : ToldApart joinedTag.numbers splitTags.numbers := by
    show ∀ m ∈ [Number.ofNat 1], ∀ n ∈ [Number.ofNat 10], m.text = n.text → m = n
    decide
  refine ⟨hn, fun h => ?_⟩
  have heq := (rendering_is_injective joinedTag splitTags hn).1 h
  exact absurd (Value.list.inj heq) (by simp)

end Metadata
end ApiSync
