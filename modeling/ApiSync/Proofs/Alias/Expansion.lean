import ApiSync.Proofs.Alias.Substitution
/-!
# Annotations with their aliases written out

In the text of a tree the words are the names and the words of the constructs around them.  An
alias is none of the latter, so replacing the words of the text at once is replacing the names of
the tree: expansion writes a tree in the place of each alias.
-/

namespace ApiSync

namespace Annotation

open Text
open Alias (startsWithWord startsWithWord_cons)
open Alias.Table (inParens words_inParens mapWords_inParens)

/-! ## The words of a tree -/

section

variable {head : List Char} (h : IsWord head)

include h

theorem words_subscript (inner : List Char) :
    words (head ++ '[' :: (inner ++ [']'])) = head :: words inner := by
  have hopen : isWordChar '[' = false := by decide
  have hclose : isWordChar ']' = false := by decide
  rw [words_word h (startsWithWord_cons hopen _), words_cons_of_not hopen,
    words_append_boundary (startsWithWord_cons hclose _), words_cons_of_not hclose]
  exact congrArg _ (List.append_nil _)

theorem mapWords_subscript (f : List Char → List Char) (inner : List Char) :
    mapWords f (head ++ '[' :: (inner ++ [']'])) =
      f head ++ '[' :: (mapWords f inner ++ [']']) := by
  have hopen : isWordChar '[' = false := by decide
  have hclose : isWordChar ']' = false := by decide
  rw [mapWords_word f h (startsWithWord_cons hopen _), mapWords_cons f hopen,
    mapWords_append_boundary f (startsWithWord_cons hclose _), mapWords_cons f hclose]
  rfl

end

theorem mapWords_commaJoin (f : List Char → List Char) (ms : List (List Char)) :
    mapWords f (commaJoin ms) = commaJoin (ms.map (mapWords f)) := by
  have hcomma : isWordChar ',' = false := by decide
  induction ms with
  | nil => rfl
  | cons m ms ih =>
    by_cases hnil : ms = []
    · rw [hnil]
      rfl
    · rw [commaJoin_cons m hnil, mapWords_append_boundary f (startsWithWord_cons hcomma _),
        mapWords_cons f hcomma, mapWords_cons f (by decide), ih, List.map_cons,
        commaJoin_cons _ (by simpa using hnil)]

namespace Tree

/-- The words around the names of a tree. -/
def constructs : List String := ["Union", "Optional"]

variable {t : Tree}

theorem mem_words_text (ht : ∀ n ∈ t.names, IsWord n.toList) {w : List Char}
    (hw : w ∈ words t.text) : String.ofList w ∈ constructs ∨ String.ofList w ∈ t.names := by
  induction t with
  | name n =>
    rw [text_name, words_of_isWord (ht n List.mem_cons_self), List.mem_singleton] at hw
    rw [hw, String.ofList_toList]
    exact Or.inr List.mem_cons_self
  | union first more hfirst hmore =>
    have hall : ∀ u ∈ first :: more, (∀ n ∈ u.names, IsWord n.toList) → w ∈ words u.text →
        String.ofList w ∈ constructs ∨ String.ofList w ∈ u.names :=
      List.forall_mem_cons.mpr ⟨hfirst, hmore⟩
    have hwords : words (union first more).text =
        "Union".toList :: (first :: more).flatMap fun u => words u.text := by
      rw [text_union, ← List.flatMap_map, ← words_commaJoin]
      exact words_subscript (show IsWord "Union".toList by decide) _
    rw [hwords] at hw
    rcases List.mem_cons.mp hw with rfl | hin
    · exact Or.inl (by decide)
    · obtain ⟨u, hu, hwu⟩ := List.mem_flatMap.mp hin
      refine (hall u hu (names_of_union ht u hu) hwu).imp id fun hname => ?_
      rw [names_union]
      exact List.mem_flatMap.mpr ⟨u, hu, hname⟩
  | optional inner ih =>
    have hwords : words (optional inner).text = "Optional".toList :: words inner.text :=
      words_subscript (show IsWord "Optional".toList by decide) inner.text
    rw [hwords] at hw
    rcases List.mem_cons.mp hw with rfl | hin
    · exact Or.inl (by decide)
    · exact ih ht hin
  | group inner ih => exact ih ht (words_inParens inner.text ▸ hw)

/-- Replacing the words of the text replaces the names, if it leaves the constructs. -/
theorem mapWords_text {f : List Char → List Char} {g : String → Tree}
    (hf : ∀ c ∈ constructs, f c.toList = c.toList) (ht : ∀ n ∈ t.names, IsWord n.toList)
    (h : ∀ n ∈ t.names, f n.toList = (g n).text) : mapWords f t.text = (t.bind g).text := by
  induction t with
  | name n =>
    rw [text_name, mapWords_of_isWord f (ht n List.mem_cons_self)]
    exact h n List.mem_cons_self
  | union first more hfirst hmore =>
    have hall : ∀ u ∈ first :: more, (∀ n ∈ u.names, IsWord n.toList) →
        (∀ n ∈ u.names, f n.toList = (g n).text) → mapWords f u.text = (u.bind g).text :=
      List.forall_mem_cons.mpr ⟨hfirst, hmore⟩
    have hmembers : ((first :: more).map text).map (mapWords f) =
        ((first :: more).map (·.bind g)).map text := by
      rw [List.map_map, List.map_map]
      exact List.map_congr_left fun u hu =>
        hall u hu (names_of_union ht u hu) (names_of_union h u hu)
    have hmapped : mapWords f (union first more).text =
        f "Union".toList ++ '[' :: (mapWords f (commaJoin ((first :: more).map text)) ++ [']']) :=
      text_union first more ▸ mapWords_subscript (show IsWord "Union".toList by decide) f _
    rw [hmapped, hf "Union" (by decide), mapWords_commaJoin, hmembers, bind_union, text_union]
    exact (unionOf_eq _).symm
  | optional inner ih =>
    have hmapped : mapWords f (optional inner).text =
        f "Optional".toList ++ '[' :: (mapWords f inner.text ++ [']']) :=
      mapWords_subscript (show IsWord "Optional".toList by decide) f inner.text
    rw [hmapped, hf "Optional" (by decide), ih ht h]
    exact (optionalOf_eq _).symm
  | group inner ih =>
    have hmapped : mapWords f (group inner).text = inParens (mapWords f inner.text) :=
      mapWords_inParens f inner.text
    rw [hmapped, ih ht h]
    rfl

end Tree
end Annotation

namespace Alias

open Text Annotation

/-- A name that can be replaced: none of the constructs around the names. -/
structure IsAlias (n : String) : Prop where
  word : IsWord n.toList
  noUnion : n ≠ "Union"
  noOptional : n ≠ "Optional"

instance (n : String) : Decidable (IsAlias n) :=
  decidable_of_iff (IsWord n.toList ∧ n ≠ "Union" ∧ n ≠ "Optional")
    ⟨fun h => ⟨h.1, h.2.1, h.2.2⟩, fun h => ⟨h.word, h.noUnion, h.noOptional⟩⟩

abbrev Definitions := List (String × Tree)

namespace Definitions

/-- The types as they are written in a table. -/
def table (defs : Definitions) : Table := defs.map fun e => (e.1, String.ofList e.2.text)

/-- An annotation over the definitions: each name in it is an alias or a model. -/
structure Over (defs : Definitions) (t : Tree) : Prop where
  plain : t.isPlain = true
  names : ∀ w ∈ t.names, w ∈ Fields.keys defs ∨ IsModel w

instance (defs : Definitions) (t : Tree) : Decidable (defs.Over t) :=
  decidable_of_iff (t.isPlain = true ∧ ∀ w ∈ t.names, w ∈ Fields.keys defs ∨ IsModel w)
    ⟨fun h => ⟨h.1, h.2⟩, fun h => ⟨h.plain, h.names⟩⟩

/-- Each alias is defined once, by an annotation over the definitions. -/
structure Sound (defs : Definitions) : Prop where
  distinct : (Fields.keys defs).Nodup
  aliases : ∀ w ∈ Fields.keys defs, IsAlias w
  types : ∀ e ∈ defs, defs.Over e.2

/-- Whether each chain of aliases that starts with the name has at most so many of them. -/
def endsWithin (defs : Definitions) : Nat → String → Bool
  | 0, w => (Fields.get? defs w).isNone
  | k + 1, w =>
    match Fields.get? defs w with
    | none => true
    | some d => d.names.all (endsWithin defs k)

/-- What a name stands for, the chain followed so far; `wrap` is applied to each type. -/
def resolve (wrap : Tree → Tree) (defs : Definitions) : Nat → String → Tree
  | 0, w => .name w
  | k + 1, w =>
    match Fields.get? defs w with
    | none => .name w
    | some d => wrap (d.bind (resolve wrap defs k))

/-- An annotation in which each alias stands for its type in parentheses; in place it stands for
the type itself. -/
def expanded (defs : Definitions) (t : Tree) : Tree := t.bind (resolve .group defs expansionPasses)

def inPlace (defs : Definitions) (t : Tree) : Tree := t.bind (resolve id defs expansionPasses)

variable {defs : Definitions}

/-! ## Chains -/

theorem endsWithin_succ {k : Nat} {w : String} : defs.endsWithin (k + 1) w = true ↔
    ∀ d, Fields.get? defs w = some d → ∀ v ∈ d.names, defs.endsWithin k v = true := by
  rw [endsWithin]
  cases Fields.get? defs w with
  | none => simp
  | some d => simp

theorem Over.words (h : defs.Sound) {t : Tree} (ht : defs.Over t) :
    ∀ w ∈ t.names, IsWord w.toList := fun w hw =>
  (ht.names w hw).elim (fun hkey => (h.aliases w hkey).word) IsModel.word

theorem Sound.words (h : defs.Sound) {w : String} {d : Tree} (hd : Fields.get? defs w = some d) :
    ∀ v ∈ d.names, IsWord v.toList :=
  (h.types _ (Fields.mem_of_get? hd)).words h

/-! ## The table of the definitions -/

theorem keys_table (defs : Definitions) : Fields.keys defs.table = Fields.keys defs := by
  rw [Fields.keys, Fields.keys, table, List.map_map]
  rfl

theorem typeOf?_table (defs : Definitions) (w : List Char) :
    defs.table.typeOf? w =
      (Fields.get? defs (String.ofList w)).map fun d => String.ofList d.text :=
  Fields.get?_map (fun _ (d : Tree) => String.ofList d.text) defs (String.ofList w)

theorem Sound.named (h : defs.Sound) : defs.table.Named := by
  constructor
  · exact (keys_table defs).symm ▸ h.distinct
  · exact fun n hn => (h.aliases n (keys_table defs ▸ hn)).word

theorem Sound.table_types (h : defs.Sound) : ∀ e ∈ defs.table, e.2 ≠ "" := by
  intro e he heq
  obtain ⟨d, hd, rfl⟩ := List.mem_map.mp he
  refine Tree.text_ne_nil (fun w hw => ((h.types d hd).words h w hw).nonempty) ?_
  have htext := congrArg String.toList heq
  rwa [String.toList_ofList] at htext

theorem Sound.typeOf?_construct (h : defs.Sound) {w : List Char}
    (hw : String.ofList w ∈ Tree.constructs) : defs.table.typeOf? w = none := by
  rw [typeOf?_table, Option.map_eq_none_iff, Fields.get?_eq_none_iff]
  intro hkey
  have halias := h.aliases _ hkey
  exact absurd hw (by simp [Tree.constructs, halias.noUnion, halias.noOptional])

theorem Sound.standsFor_construct (h : defs.Sound) (k : Nat) :
    ∀ c ∈ Tree.constructs, defs.table.standsFor k c.toList = c.toList := by
  intro c hc
  refine Table.standsFor_of_none (h.typeOf?_construct ?_) k
  rwa [String.ofList_toList]

theorem Sound.endsWithin_text (h : defs.Sound) {t : Tree} (ht : ∀ n ∈ t.names, IsWord n.toList)
    {k : Nat} (hk : ∀ n ∈ t.names, defs.table.endsWithin k n.toList = true) :
    ∀ w ∈ Annotation.words t.text, defs.table.endsWithin k w = true := by
  intro w hw
  rcases Tree.mem_words_text ht hw with hconstruct | hname
  · exact Table.endsWithin_of_none (h.typeOf?_construct hconstruct) k
  · have hchain := hk _ hname
    rwa [String.toList_ofList] at hchain

/-- The chains of the table are those of the definitions. -/
theorem Sound.endsWithin_table (h : defs.Sound) {k : Nat} {w : String}
    (hk : defs.endsWithin k w = true) : defs.table.endsWithin k w.toList = true := by
  induction k generalizing w with
  | zero =>
    rw [Table.endsWithin, typeOf?_table, Option.isNone_map, String.ofList_toList]
    exact hk
  | succ k ih =>
    refine Table.endsWithin_succ.mpr fun type htype => ?_
    rw [typeOf?_table, String.ofList_toList] at htype
    obtain ⟨d, hd, rfl⟩ := Option.map_eq_some_iff.mp htype
    rw [String.toList_ofList]
    exact h.endsWithin_text (h.words hd) fun v hv => ih (endsWithin_succ.mp hk d hd v hv)

theorem Sound.standsFor_table (h : defs.Sound) (k : Nat) (w : String) :
    defs.table.standsFor k w.toList = (resolve .group defs k w).text := by
  induction k generalizing w with
  | zero => rfl
  | succ k ih =>
    rw [Table.standsFor, typeOf?_table, String.ofList_toList, resolve]
    cases hd : Fields.get? defs w with
    | none => rfl
    | some d =>
      have htext := Tree.mapWords_text (h.standsFor_construct k) (h.words hd) fun v _ => ih v
      show Table.inParens (mapWords _ (String.ofList d.text).toList) = _
      rw [String.toList_ofList, htext]
      rfl

/-- An annotation whose chains end within the passes is expanded to the end. -/
theorem expand_text (h : defs.Sound) {t : Tree} (ht : defs.Over t)
    (hchains : ∀ w ∈ t.names, defs.endsWithin expansionPasses w = true) :
    expand defs.table (String.ofList t.text) = String.ofList (expanded defs t).text := by
  rw [← String.toList_inj, h.named.toList_expand h.table_types, String.toList_ofList,
    String.toList_ofList]
  · exact Tree.mapWords_text (h.standsFor_construct expansionPasses) (ht.words h) fun w _ =>
      h.standsFor_table expansionPasses w
  · rw [String.toList_ofList]
    exact h.endsWithin_text (ht.words h) fun w hw => h.endsWithin_table (hchains w hw)

end Definitions
end Alias
end ApiSync
