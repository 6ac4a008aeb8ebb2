import Mathlib.Logic.Function.Iterate
import ApiSync.Proofs.Annotation.MapWords
import ApiSync.Proofs.Fields
/-!
# Expansion writes every alias out

The names of a table are replaced one after the other in the whole text, in a few passes.  What
comes out is the text with each word replaced at once by what it stands for: an alias stands for
its type in parentheses, with the words of the type replaced in the same way, and any other word
for itself.  A replacement does not change what a text stands for, and each pass takes an alias
off every chain, so the passes come to the end of the chains.
-/

namespace ApiSync
namespace Alias

open Text Annotation

/-- A pass that changes nothing would change nothing again, so stopping early makes no
difference. -/
theorem expandPasses_eq (table : Table) (k : Nat) (text : List Char) :
    expandPasses table k text = (fun s => table.foldl replaceName s)^[k] text := by
  induction k generalizing text with
  | zero => rfl
  | succ k ih =>
    rw [expandPasses]
    split
    · next hfixed =>
      exact (Function.iterate_fixed (f := fun s => table.foldl replaceName s) hfixed (k + 1)).symm
    · rw [ih, Function.iterate_succ_apply]

namespace Table

/-- The type that a word of an annotation is an alias of. -/
def typeOf? (table : Table) (w : List Char) : Option String :=
  Fields.get? table (String.ofList w)

/-- Whether each chain of aliases that starts with the word has at most so many of them. -/
def endsWithin (table : Table) : Nat → List Char → Bool
  | 0, w => (table.typeOf? w).isNone
  | k + 1, w =>
    match table.typeOf? w with
    | none => true
    | some d => (words d.toList).all (endsWithin table k)

def inParens (text : List Char) : List Char := '(' :: text ++ [')']

/-- What a word stands for, the chain of aliases followed so far. -/
def standsFor (table : Table) : Nat → List Char → List Char
  | 0, w => w
  | k + 1, w =>
    match table.typeOf? w with
    | none => w
    | some d => inParens (mapWords (standsFor table k) d.toList)

/-- Each name is a word with one type. -/
structure Named (table : Table) : Prop where
  distinct : (Fields.keys table).Nodup
  names : ∀ n ∈ Fields.keys table, IsWord n.toList

/-- Each name is a word with one type, and no chain of aliases is longer than an annotation is
passed through; so no alias leads back to itself. -/
structure Sound (table : Table) : Prop where
  distinct : (Fields.keys table).Nodup
  names : ∀ n ∈ Fields.keys table, IsWord n.toList
  types : ∀ e ∈ table, e.2 ≠ ""
  chains : ∀ n ∈ Fields.keys table, table.endsWithin expansionPasses n.toList = true

instance (table : Table) : Decidable table.Sound :=
  decidable_of_iff ((Fields.keys table).Nodup ∧ (∀ n ∈ Fields.keys table, IsWord n.toList) ∧
      (∀ e ∈ table, e.2 ≠ "") ∧
      ∀ n ∈ Fields.keys table, table.endsWithin expansionPasses n.toList = true)
    ⟨fun h => ⟨h.1, h.2.1, h.2.2.1, h.2.2.2⟩,
      fun h => ⟨h.distinct, h.names, h.types, h.chains⟩⟩

variable {table : Table}

theorem Sound.named (h : table.Sound) : table.Named := ⟨h.distinct, h.names⟩

theorem mapWords_inParens (f : List Char → List Char) (text : List Char) :
    mapWords f (inParens text) = inParens (mapWords f text) := by
  have hround : isWordChar ')' = false := by decide
  rw [inParens, List.cons_append, mapWords_cons f (by decide),
    mapWords_append_boundary f (startsWithWord_cons hround []), mapWords_cons f hround]
  rfl

theorem words_inParens (text : List Char) : words (inParens text) = words text := by
  have hround : isWordChar ')' = false := by decide
  rw [inParens, List.cons_append, words_cons_of_not (by decide), words_append_cons hround]
  exact List.append_nil _

/-! ## Chains -/

theorem endsWithin_succ {k : Nat} {w : List Char} : table.endsWithin (k + 1) w = true ↔
    ∀ d, table.typeOf? w = some d → ∀ v ∈ words d.toList, table.endsWithin k v = true := by
  rw [endsWithin]
  cases table.typeOf? w with
  | none => simp
  | some d => simp

theorem endsWithin_of_none {w : List Char} (h : table.typeOf? w = none) (k : Nat) :
    table.endsWithin k w = true := by
  cases k with
  | zero => rw [endsWithin, h]; rfl
  | succ k => rw [endsWithin, h]

theorem endsWithin_mono {k : Nat} {w : List Char} (h : table.endsWithin k w = true) :
    table.endsWithin (k + 1) w = true := by
  induction k generalizing w with
  | zero => exact endsWithin_of_none (Option.isNone_iff_eq_none.mp h) 1
  | succ k ih => exact endsWithin_succ.mpr fun d hd v hv => ih (endsWithin_succ.mp h d hd v hv)

theorem endsWithin_of_some {k : Nat} {w : List Char} {d : String}
    (h : table.endsWithin k w = true) (hd : table.typeOf? w = some d) :
    ∃ j, k = j + 1 ∧ ∀ v ∈ words d.toList, table.endsWithin j v = true := by
  cases k with
  | zero =>
    rw [endsWithin, hd] at h
    cases h
  | succ k => exact ⟨k, rfl, endsWithin_succ.mp h d hd⟩

theorem Sound.endsWithin (h : table.Sound) (w : List Char) :
    table.endsWithin expansionPasses w = true := by
  by_cases hkey : String.ofList w ∈ Fields.keys table
  · have hchain := h.chains _ hkey
    rwa [String.toList_ofList] at hchain
  · exact endsWithin_of_none (Fields.get?_eq_none_iff.mpr hkey) _

/-- A word that is no alias stands for itself. -/
theorem standsFor_of_none {w : List Char} (h : table.typeOf? w = none) (k : Nat) :
    table.standsFor k w = w := by
  cases k with
  | zero => rfl
  | succ k => rw [standsFor, h]

/-- A chain that has ended is not followed any further. -/
theorem standsFor_succ {k : Nat} {w : List Char} (h : table.endsWithin k w = true) :
    table.standsFor (k + 1) w = table.standsFor k w := by
  induction k generalizing w with
  | zero =>
    have hnone : table.typeOf? w = none := Option.isNone_iff_eq_none.mp h
    conv_lhs => rw [standsFor, hnone]
    rfl
  | succ k ih =>
    rw [standsFor]
    conv_rhs => rw [standsFor]
    cases hd : table.typeOf? w with
    | none => rfl
    | some d =>
      have hwords := endsWithin_succ.mp h d hd
      exact congrArg inParens (mapWords_congr fun v hv => ih (hwords v hv))

/-- In what a word stands for at the end of its chain there is no alias. -/
theorem typeOf?_of_mem_standsFor {k : Nat} {w v : List Char} (hw : IsWord w)
    (h : table.endsWithin k w = true) (hv : v ∈ words (table.standsFor k w)) :
    table.typeOf? v = none := by
  have hself : v ∈ words w → table.typeOf? w = none → table.typeOf? v = none := by
    intro hmem hnone
    rw [words_of_isWord hw] at hmem
    rw [List.mem_singleton.mp hmem, hnone]
  induction k generalizing w with
  | zero => exact hself hv (Option.isNone_iff_eq_none.mp h)
  | succ k ih =>
    rw [standsFor] at hv
    cases hd : table.typeOf? w with
    | none =>
      rw [hd] at hv
      exact hself hv hd
    | some d =>
      rw [hd] at hv
      dsimp only at hv
      rw [words_inParens, words_mapWords] at hv
      obtain ⟨u, hu, hvu⟩ := List.mem_flatMap.mp hv
      have hword := isWord_of_mem_words hu
      refine ih hword (endsWithin_succ.mp h d hd u hu) hvu fun hmem hnone => ?_
      rw [words_of_isWord hword] at hmem
      rw [List.mem_singleton.mp hmem, hnone]

/-! ## One entry -/

/-- Replacing a name replaces the words that are equal to it. -/
theorem replaceName_eq {e : String × String} (h : IsWord e.1.toList) (text : List Char) :
    replaceName text e = mapWords (fun w => if w = e.1.toList then inParens e.2.toList else w)
      text := by
  rw [replaceName]
  induction text using text_induction with
  | nil => exact replaceFrom_nil h false
  | cons c cs hc ih => rw [replaceFrom_cons h hc, mapWords_cons _ hc, ih]
  | word w cs hw hcs ih => rw [replaceFrom_word h hw hcs, mapWords_word _ hw hcs, ih]; rfl

theorem Named.typeOf?_of_mem (h : table.Named) {e : String × String} (he : e ∈ table) :
    table.typeOf? e.1.toList = some e.2 := by
  rw [typeOf?, String.ofList_toList]
  exact Fields.get?_of_mem h.distinct he

/-- Replacing an alias makes no difference to what the words stand for. -/
theorem mapWords_replaceName (h : table.Named) {e : String × String} (he : e ∈ table)
    {text : List Char} {k : Nat} (ht : ∀ w ∈ words text, table.endsWithin k w = true) :
    mapWords (table.standsFor k) (replaceName text e) = mapWords (table.standsFor k) text := by
  rw [replaceName_eq (h.names _ (List.mem_map_of_mem he)), mapWords_mapWords]
  refine mapWords_congr fun w hw => ?_
  by_cases hwe : w = e.1.toList
  · have hd : table.typeOf? w = some e.2 := hwe ▸ h.typeOf?_of_mem he
    -- The chains of the type are shorter than that of its alias, so one step less will do.
    obtain ⟨j, rfl, hwords⟩ := endsWithin_of_some (ht w hw) hd
    have hchain : mapWords (table.standsFor (j + 1)) e.2.toList =
        mapWords (table.standsFor j) e.2.toList :=
      mapWords_congr fun v hv => standsFor_succ (hwords v hv)
    rw [if_pos hwe, mapWords_inParens, hchain, standsFor, hd]
  · rw [if_neg hwe, mapWords_of_isWord _ (isWord_of_mem_words hw)]

theorem mem_words_replaceName {e : String × String} (h : IsWord e.1.toList) {text w : List Char}
    (hw : w ∈ words (replaceName text e)) :
    (w ∈ words text ∧ w ≠ e.1.toList) ∨ (e.1.toList ∈ words text ∧ w ∈ words e.2.toList) := by
  rw [replaceName_eq h, words_mapWords] at hw
  obtain ⟨v, hv, hwv⟩ := List.mem_flatMap.mp hw
  by_cases hve : v = e.1.toList
  · rw [if_pos hve, words_inParens] at hwv
    exact Or.inr ⟨hve ▸ hv, hwv⟩
  · rw [if_neg hve, words_of_isWord (isWord_of_mem_words hv), List.mem_singleton] at hwv
    exact Or.inl ⟨hwv ▸ hv, hwv ▸ hve⟩

/-! ## One pass -/

/-- A word that a pass still has to shorten: its chain is one too long, and its entry is to
come. -/
def Pending (table : Table) (k : Nat) (todo : Table) (w : List Char) : Prop :=
  table.endsWithin k w = true ∨
    table.endsWithin (k + 1) w = true ∧ String.ofList w ∈ Fields.keys todo

theorem Pending.endsWithin {k : Nat} {todo : Table} {w : List Char} (h : Pending table k todo w) :
    table.endsWithin (k + 1) w = true :=
  h.elim endsWithin_mono And.left

theorem pending_replaceName (h : table.Named) {e : String × String} (he : e ∈ table)
    {todo : Table} {k : Nat} {text : List Char}
    (ht : ∀ w ∈ words text, Pending table k (e :: todo) w) :
    ∀ w ∈ words (replaceName text e), Pending table k todo w := by
  intro w hw
  rcases mem_words_replaceName (h.names _ (List.mem_map_of_mem he)) hw with
    ⟨hmem, hne⟩ | ⟨hmem, hin⟩
  · refine (ht w hmem).imp id fun hlong => ⟨hlong.1, ?_⟩
    refine (List.mem_cons.mp hlong.2).resolve_left fun (heq : String.ofList w = e.1) => hne ?_
    rw [← heq, String.toList_ofList]
  · -- A word that is new here need not be replaced again in this pass: its chain is shorter.
    exact Or.inl (endsWithin_succ.mp (ht _ hmem).endsWithin e.2 (h.typeOf?_of_mem he) w hin)

/-- The entries still to come keep what the words stand for, and leave none to shorten. -/
theorem mapWords_foldl (h : table.Named) {todo : Table} (hin : ∀ e ∈ todo, e ∈ table)
    {text : List Char} {k : Nat} (ht : ∀ w ∈ words text, Pending table k todo w) :
    mapWords (table.standsFor (k + 1)) (todo.foldl replaceName text) =
        mapWords (table.standsFor (k + 1)) text ∧
      ∀ w ∈ words (todo.foldl replaceName text), Pending table k [] w := by
  induction todo generalizing text with
  | nil => exact ⟨rfl, ht⟩
  | cons e todo ih =>
    obtain ⟨he, hrest⟩ := List.forall_mem_cons.mp hin
    obtain ⟨hsame, hdone⟩ := ih hrest (pending_replaceName h he ht)
    rw [mapWords_replaceName h he fun w hw => (ht w hw).endsWithin] at hsame
    exact ⟨hsame, hdone⟩

/-- A pass keeps what the words stand for, and takes one alias off each chain. -/
theorem mapWords_pass (h : table.Named) {text : List Char} {k : Nat}
    (ht : ∀ w ∈ words text, table.endsWithin (k + 1) w = true) :
    mapWords (table.standsFor (k + 1)) (table.foldl replaceName text) =
        mapWords (table.standsFor (k + 1)) text ∧
      ∀ w ∈ words (table.foldl replaceName text), table.endsWithin k w = true := by
  have hstart : ∀ w ∈ words text, Pending table k table w := by
    intro w hw
    by_cases hkey : String.ofList w ∈ Fields.keys table
    · exact Or.inr ⟨ht w hw, hkey⟩
    · exact Or.inl (endsWithin_of_none (Fields.get?_eq_none_iff.mpr hkey) k)
  obtain ⟨hsame, hdone⟩ := mapWords_foldl h (fun _ he => he) hstart
  exact ⟨hsame, fun w hw => (hdone w hw).elim id fun hlong => absurd hlong.2 List.not_mem_nil⟩

/-! ## All passes -/

/-- As many passes as the chains are long write out what each word stands for. -/
theorem iterate_pass (h : table.Named) {text : List Char} {k : Nat}
    (ht : ∀ w ∈ words text, table.endsWithin k w = true) :
    (fun s => table.foldl replaceName s)^[k] text = mapWords (table.standsFor k) text := by
  induction k generalizing text with
  | zero => exact (mapWords_id text).symm
  | succ k ih =>
    obtain ⟨hsame, hshort⟩ := mapWords_pass h ht
    rw [Function.iterate_succ_apply, ih hshort, ← hsame]
    exact mapWords_congr fun w hw => (standsFor_succ (hshort w hw)).symm

/-- What a word stands for once every chain has been followed to its end. -/
def meaning (table : Table) : List Char → List Char := table.standsFor expansionPasses

theorem Sound.meaning_eq (h : table.Sound) (w : List Char) :
    table.meaning w = match table.typeOf? w with
      | none => w
      | some d => inParens (mapWords table.meaning d.toList) := by
  rw [meaning, ← standsFor_succ (h.endsWithin w)]
  rfl

/-- Expansion comes to the end of the chains that start in the annotation, if they are short
enough. -/
theorem Named.toList_expand (h : table.Named) (htypes : ∀ e ∈ table, e.2 ≠ "") {type : String}
    (ht : ∀ w ∈ words type.toList, table.endsWithin expansionPasses w = true) :
    (expand table type).toList = mapWords table.meaning type.toList := by
  have hall : table.filter (·.2 ≠ "") = table :=
    List.filter_eq_self.mpr fun e he => by simpa using htypes e he
  rw [expand, hall, String.toList_ofList, expandPasses_eq]
  exact iterate_pass h ht

theorem Sound.toList_expand (h : table.Sound) (type : String) :
    (expand table type).toList = mapWords table.meaning type.toList :=
  h.named.toList_expand h.types fun w _ => h.endsWithin w

theorem Sound.typeOf?_of_mem_expand (h : table.Sound) {type : String} {w : List Char}
    (hw : w ∈ words (expand table type).toList) : table.typeOf? w = none := by
  rw [h.toList_expand, words_mapWords] at hw
  obtain ⟨v, hv, hwv⟩ := List.mem_flatMap.mp hw
  exact typeOf?_of_mem_standsFor (isWord_of_mem_words hv) (h.endsWithin v) hwv

theorem Sound.expand_expand (h : table.Sound) (type : String) :
    expand table (expand table type) = expand table type := by
  rw [← String.toList_inj, h.toList_expand]
  refine mapWords_self fun w hw => ?_
  rw [h.meaning_eq, h.typeOf?_of_mem_expand hw]

/-! ## The order of the entries -/

theorem Sound.typeOf?_perm (h : table.Sound) {other : Table} (hp : table.Perm other) :
    other.typeOf? = table.typeOf? := funext fun _ => Fields.get?_perm h.distinct hp _

theorem Sound.endsWithin_perm (h : table.Sound) {other : Table} (hp : table.Perm other)
    (k : Nat) : other.endsWithin k = table.endsWithin k := by
  induction k with
  | zero => funext w; rw [Table.endsWithin, Table.endsWithin, h.typeOf?_perm hp]
  | succ k ih => funext w; rw [Table.endsWithin, Table.endsWithin, h.typeOf?_perm hp, ih]

theorem Sound.standsFor_perm (h : table.Sound) {other : Table} (hp : table.Perm other)
    (k : Nat) : other.standsFor k = table.standsFor k := by
  induction k with
  | zero => rfl
  | succ k ih => funext w; rw [standsFor, standsFor, h.typeOf?_perm hp, ih]

theorem Sound.perm (h : table.Sound) {other : Table} (hp : table.Perm other) : other.Sound := by
  have hkeys : (Fields.keys table).Perm (Fields.keys other) := hp.map _
  refine ⟨hkeys.nodup_iff.mp h.distinct, fun n hn => h.names n (hkeys.mem_iff.mpr hn),
    fun e he => h.types e (hp.mem_iff.mpr he), fun n hn => ?_⟩
  rw [h.endsWithin_perm hp]
  exact h.chains n (hkeys.mem_iff.mpr hn)

theorem Sound.expand_perm (h : table.Sound) {other : Table} (hp : table.Perm other)
    (type : String) : expand other type = expand table type := by
  rw [← String.toList_inj, (h.perm hp).toList_expand, h.toList_expand, meaning, meaning,
    h.standsFor_perm hp]

end Table

/-- Expansion replaces every word of the text at once by its meaning: that of an alias is its type
in parentheses with all words replaced by their meaning, and any other word means itself.  So no
alias is left as a word, the order of the entries makes no difference, and there is nothing left
for another expansion. -/
theorem expand_is_simultaneous_substitution {table : Table} (h : table.Sound) (type : String) :
    (∀ w, table.meaning w = match table.typeOf? w with
      | none => w
      | some d => Table.inParens (mapWords table.meaning d.toList)) ∧
    (expand table type).toList = mapWords table.meaning type.toList ∧
    (∀ n ∈ Fields.keys table, n.toList ∉ words (expand table type).toList) ∧
    (∀ other : Table, table.Perm other → expand other type = expand table type) ∧
    expand table (expand table type) = expand table type := by
  refine ⟨h.meaning_eq, h.toList_expand type, fun n hn hmem => ?_,
    fun _ hp => h.expand_perm hp type, h.expand_expand type⟩
  have hnone := h.typeOf?_of_mem_expand hmem
  rw [Table.typeOf?, String.ofList_toList] at hnone
  exact Fields.get?_eq_none_iff.mp hnone hn

section Example

/-- A chain of five aliases, the first of which is last in the table. -/
def chainTable : Table :=
  [("E", "int"), ("D", "E|None"), ("C", "List[D]"), ("B", "(C, D)"), ("A", "B or BB")]

theorem chain_is_written_out : chainTable.Sound ∧
    expand chainTable "A[AA]" =
      "((((List[((int)|None)]), ((int)|None))) or BB)[AA]" ∧
    (expand chainTable "A[AA]").toList = mapWords chainTable.meaning "A[AA]".toList ∧
    expand chainTable.reverse "A[AA]" = expand chainTable "A[AA]" := by
  have hsound : chainTable.Sound := by decide
  obtain ⟨-, hmeaning, -, hperm, -⟩ := expand_is_simultaneous_substitution hsound "A[AA]"
  exact ⟨hsound, by decide +kernel, hmeaning, hperm _ (List.reverse_perm _).symm⟩

end Example

end Alias
end ApiSync
