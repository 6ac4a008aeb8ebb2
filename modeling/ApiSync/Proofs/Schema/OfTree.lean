import ApiSync.Proofs.Annotation.TreeUnion
import ApiSync.Proofs.Schema.Nullable
/-!
# The schema of a tree

The schema of a tree of models is decided by what `Optional` and parentheses stand around: a union
is the composition of the models that are read off it, which admits a null if the tree is
`Optional` as a whole, and a name is resolved by its letters.
-/

namespace ApiSync
namespace Annotation

open Text

theorem not_isLineBreak_of_isTreeChar {c : Char} (h : Tree.isTreeChar c = true) :
    isLineBreak c = false := by
  have hwords : ∀ {d : Char}, isWordChar d = true → isLineBreak d = false := by
    intro d hd
    have hrange := toNat_of_isWordChar hd
    simp only [isLineBreak, Bool.or_eq_false_iff, decide_eq_false_iff_not]
    refine ⟨⟨⟨?_, ?_⟩, by omega⟩, by omega⟩
    · rintro rfl
      exact absurd hd (by decide)
    · rintro rfl
      exact absurd hd (by decide)
  have hmarks : ['[', ']', '(', ')', ',', ' '].all (!isLineBreak ·) = true := by decide
  rw [Tree.isTreeChar, Bool.or_eq_true, List.contains_iff_mem] at h
  rcases h with hword | hmark
  · exact hwords hword
  · simpa using List.all_eq_true.mp hmarks c hmark

/-- A list of members that are trimmed is trimmed itself. -/
theorem trim_commaJoin {ms : List (List Char)} (h : ∀ m ∈ ms, m ≠ [] ∧ trim m = m) :
    trim (commaJoin ms) = commaJoin ms := by
  induction ms with
  | nil => rfl
  | cons m ms ih =>
    obtain ⟨hm, htrim⟩ := h m List.mem_cons_self
    by_cases hnil : ms = []
    · rw [hnil]
      exact htrim
    · have hms := fun n hn => h n (List.mem_cons_of_mem m hn)
      obtain ⟨n, hn⟩ := List.exists_mem_of_ne_nil ms hnil
      have hjoin : commaJoin ms ≠ [] := commaJoin_ne_nil hn (hms n hn).1
      have hform : commaJoin (m :: ms) = (m ++ [',', ' ']) ++ commaJoin ms := by
        rw [commaJoin_cons m hnil, List.append_assoc]
        rfl
      refine trim_eq_self_iff.mpr ⟨?_, ?_⟩
      · rw [commaJoin_cons m hnil, List.head?_append_of_ne_nil _ hm]
        exact (trim_eq_self_iff.mp htrim).1
      · rw [hform, List.getLast?_append_of_ne_nil _ hjoin]
        exact (trim_eq_self_iff.mp (ih hms)).2

namespace Tree

variable {t : Tree}

def isOptional : Tree → Bool
  | optional _ => true
  | _ => false

theorem text_ne_noneName (h : t.OfModels) : t.text ≠ noneName := by
  cases t using induct with
  | name w =>
    intro heq
    have hnone : w = "None" := String.toList_inj.mp heq
    exact (h w List.mem_cons_self).noKeyword (hnone ▸ (by decide))
  | union first more =>
    rw [text_union, unionOf_eq]
    exact fun heq => absurd (List.cons.inj heq).1 (by decide)
  | optional inner => exact fun heq => absurd (List.cons.inj heq).1 (by decide)
  | group inner => exact fun heq => absurd (List.cons.inj heq).1 (by decide)

theorem oneLine (h : t.OfModels) : t.text.any isLineBreak = false :=
  List.any_eq_false.mpr fun c hc =>
    Bool.eq_false_iff.mp (not_isLineBreak_of_isTreeChar (List.all_eq_true.mp (all_text h) c hc))

/-! ## The null member -/

theorem wrapped?_of_not_mem {text : List Char} (h : '[' ∉ text) (head : List Char) :
    wrapped? head text = none := by
  rw [wrapped?, afterOpening?_of_not_mem (not_mem_dropTyping h)]
  rfl

/-- No member of a union is `None`. -/
theorem dropNone?_wrapped (h : t.OfModels) :
    (wrapped? "Union".toList t.text).bind (fun inner => dropNone? unionOf (members inner)) =
      none := by
  cases t using induct with
  | name w =>
    have hbracket : '[' ∉ (name w).text :=
      not_mem_of_isWord (h w List.mem_cons_self).word (by decide)
    rw [wrapped?_of_not_mem hbracket]
    rfl
  | union first more =>
    have hparts := h.members
    have htexts : ∀ m ∈ (first :: more).map text, m ≠ [] ∧ trim m = m :=
      List.forall_mem_map.mpr fun t ht =>
        ⟨text_ne_nil_of_models (hparts t ht), trim_text (hparts t ht)⟩
    have hline : (commaJoin ((first :: more).map text)).any isLineBreak = false := by
      have hall := oneLine h
      rw [text_union, unionOf_eq, List.any_append, List.any_append, Bool.or_eq_false_iff,
        Bool.or_eq_false_iff] at hall
      exact hall.2.1
    have hafter : afterOpening? "Union".toList (dropTyping (union first more).text) =
        some (commaJoin ((first :: more).map text) ++ [']']) := by
      rw [text_union, unionOf_eq]
      rfl
    have hwrapped := wrapped?_of_afterOpening? hafter
      (commaJoin_ne_nil List.mem_cons_self (htexts _ List.mem_cons_self).1)
      (trim_commaJoin htexts) hline
    have hmembers : members (commaJoin ((first :: more).map text)) = (first :: more).map text := by
      rw [members_of_members (List.forall_mem_map.mpr fun t ht => isMember_text (hparts t ht)),
        tidy_texts hparts]
    have hnone : noneName ∉ (first :: more).map text := by
      intro hmem
      obtain ⟨t, ht, heq⟩ := List.mem_map.mp hmem
      exact text_ne_noneName (hparts t ht) heq
    rw [hwrapped, Option.bind_some, hmembers, dropNone?, if_neg hnone]
  | optional inner => rfl
  | group inner => rfl

theorem unwrapOptional_optional {inner : Tree} (h : inner.OfModels) :
    unwrapOptional (optional inner).text = ⟨inner.text, true⟩ :=
  unwrapOptional_of_optional (text_ne_nil_of_models h) (trim_text h) (oneLine h)

theorem unwrapOptional_of_not_optional (h : t.OfModels)
    (ho : t.isOptional = false) : unwrapOptional t.text = ⟨t.text, false⟩ := by
  have hoptional : wrapped? "Optional".toList t.text = none := by
    cases t using induct with
    | name w =>
      exact wrapped?_of_not_mem (not_mem_of_isWord (h w List.mem_cons_self).word (by decide)) _
    | union first more =>
      rw [text_union, unionOf_eq]
      rfl
    | optional inner => cases ho
    | group inner => rfl
  have hpipe : '|' ∉ t.text := not_mem_text h (by decide)
  have hpieces : dropNone? (joinWith " | ".toList) (pipePieces t.text) = none := by
    rw [pipePieces, splitAt_of_not_mem hpipe, List.map_singleton, trim_text h, dropNone?,
      if_neg (by simpa using (text_ne_noneName h).symm)]
  rw [unwrapOptional, if_neg (text_ne_nil_of_models h)]
  dsimp only
  rw [trim_text h, hoptional]
  dsimp only
  rw [dropNone?_wrapped h]
  dsimp only
  rw [hpieces]
  rfl

/-! ## Enumerations -/

theorem splits_literalMark : Splits (contains literalMark) (fun a b => a || b) :=
  splits_contains (by decide) (by decide)

theorem contains_literalMark_commaJoin {ms : List (List Char)}
    (h : ∀ m ∈ ms, contains literalMark m = false) :
    contains literalMark (commaJoin ms) = false := by
  induction ms with
  | nil => rfl
  | cons m ms ih =>
    rw [splits_literalMark.members, h m List.mem_cons_self,
      ih fun n hn => h n (List.mem_cons_of_mem m hn)]
    rfl

/-- Only the constructs have a bracket behind their name, and they are no enumerations. -/
theorem contains_literalMark (h : t.OfModels) :
    contains literalMark t.text = false := by
  induction t with
  | name w =>
    have hbracket := not_mem_of_isWord (h w List.mem_cons_self).word (c := '[') (by decide)
    exact contains_of_not_mem (c := '[') (by decide) hbracket
  | union first more hfirst hmore =>
    have hparts := h.members
    have hjoin : contains literalMark (commaJoin ((first :: more).map text)) = false :=
      contains_literalMark_commaJoin <| List.forall_mem_map.mpr <| List.forall_mem_cons.mpr
        ⟨hfirst (hparts first List.mem_cons_self),
          fun t ht => hmore t ht (hparts t (List.mem_cons_of_mem first ht))⟩
    rw [text_union, unionOf_eq]
    exact (contains_append_of_no_start (by decide) _).trans
      ((splits_literalMark.concat (by decide) _).trans hjoin)
  | optional inner ih =>
    rw [text_optional, optionalOf_eq]
    exact (contains_append_of_no_start (by decide) _).trans
      ((splits_literalMark.concat (by decide) _).trans (ih h))
  | group inner ih =>
    have hopen : contains literalMark (['('] ++ (inner.text ++ [')'])) =
        contains literalMark (inner.text ++ [')']) := contains_append_of_no_start (by decide) _
    have hclose : contains literalMark (inner.text ++ ')' :: []) =
        (contains literalMark inner.text || contains literalMark []) :=
      contains_append_cons (by decide) (by decide) _ _
    rw [text_group]
    exact hopen.trans (hclose.trans (by rw [ih h]; rfl))

theorem literalTokens_text (h : t.OfModels) : literalTokens t.text = [] :=
  literalTokens_of_not_contains (contains_literalMark h)

end Tree
end Annotation

namespace Schema

open Text Annotation

/-! ## Scalars, containers and models -/

theorem primitive_optionalOf (x : List Char) : primitive (optionalOf x) = primitive x := by
  rw [primitive_eq, primitive_eq, typed?_of_mem (optionalOf_mem x), modelName?_optionalOf]

/-- The text in parentheses. -/
def grouped (x : List Char) : List Char := '(' :: (x ++ [')'])

theorem mentions_grouped {mark : String} (hmark : isNeutral mark = true) (x : List Char) :
    mentions (grouped x) mark = mentions x mark := by
  obtain ⟨hne, hword, -⟩ := isNeutral_iff.mp hmark
  have hnot : ∀ {c : Char}, isWordChar c = false → c ∉ mark.toList := by
    intro c hc hm
    rw [hword c hm] at hc
    cases hc
  have hopen : contains mark.toList ([] ++ '(' :: (x ++ ')' :: [])) =
      (contains mark.toList [] || contains mark.toList (x ++ ')' :: [])) :=
    contains_append_cons hne (hnot (by decide)) _ _
  have hclose : contains mark.toList (x ++ ')' :: []) =
      (contains mark.toList x || contains mark.toList []) :=
    contains_append_cons hne (hnot (by decide)) _ _
  rw [hclose, contains_nil hne, Bool.false_or, Bool.or_false] at hopen
  exact hopen

theorem mentions_lower_grouped {mark : String} (hmark : isNeutral mark = true) (x : List Char) :
    mentions (lowerAscii (grouped x)) mark = mentions (lowerAscii x) mark := by
  have hlower : lowerAscii (grouped x) = grouped (lowerAscii x) := by
    rw [grouped, grouped, lowerAscii, lowerAscii, List.map_cons, List.map_append]
    rfl
  rw [hlower, mentions_grouped hmark]

theorem primitive_grouped (x : List Char) : primitive (grouped x) = primitive x := by
  have htyped : typed? (grouped x) = typed? x := by
    simp only [typed?, mentionsList, mentionsMapping]
    rw [mentions_grouped (by decide), mentions_grouped (by decide), mentions_grouped (by decide),
      mentions_grouped (by decide), mentions_grouped (by decide),
      mentions_lower_grouped (by decide), mentions_lower_grouped (by decide),
      mentions_lower_grouped (by decide)]
  have hopen : modelName? ([] ++ '(' :: (x ++ ')' :: [])) =
      (modelName? []).or (modelName? (x ++ ')' :: [])) := modelName?_append_cons (by decide) _ _
  have hclose : modelName? (x ++ ')' :: []) = (modelName? x).or none :=
    modelName?_append_cons (by decide) _ _
  have hname : modelName? (grouped x) = modelName? x :=
    hopen.trans ((Option.none_or).trans (hclose.trans Option.or_none))
  rw [primitive_eq, primitive_eq, htyped, hname]

theorem primitive_text (t : Tree) : primitive t.text = primitive t.core.text := by
  induction t with
  | name word => rfl
  | union first more => rfl
  | optional inner ih => exact (primitive_optionalOf inner.text).trans ih
  | group inner ih => exact (primitive_grouped inner.text).trans ih

/-! ## Every rule in order -/

variable {t : Tree}

/-- Without its null member a tree stands around the same union or name. -/
theorem unwrapOptional_text (h : t.OfModels) :
    ∃ u : Tree, u.OfModels ∧ u.core = t.core ∧
      unwrapOptional t.text = ⟨u.text, t.isOptional⟩ := by
  cases ho : t.isOptional with
  | false => exact ⟨t, h, rfl, Tree.unwrapOptional_of_not_optional h ho⟩
  | true =>
    cases t using Tree.induct with
    | optional inner => exact ⟨inner, h, rfl, Tree.unwrapOptional_optional h⟩
    | name word => cases ho
    | union first more => cases ho
    | group inner => cases ho

theorem ofTypeText_text (h : t.OfModels) {models : List String}
    (hmodels : ∀ u : Tree, u.OfModels → u.core = t.core →
      unionModels u.text = models) :
    ofTypeText t.text = (composed .oneOf t.isOptional models).getD (primitive t.core.text) := by
  obtain ⟨u, hu, hcore, hunwrap⟩ := unwrapOptional_text h
  have hliteral : literal? t.text = none := by
    rw [literal?, Tree.literalTokens_text h]
  rw [ofTypeText, hliteral, hunwrap]
  dsimp only
  rw [union?_eq, hmodels u hu hcore, ← primitive_text]
  cases composed .oneOf t.isOptional models <;> rfl

/-- A tree around a union is the composition of the models that are read off the union. -/
theorem ofTypeText_of_union (h : t.OfModels) {first : Tree} {more : List Tree}
    (hcore : t.core = .union first more) :
    ofTypeText t.text =
      .composition .oneOf (Tree.reads ((first :: more).flatMap Tree.splice)) t.isOptional := by
  have hne : Tree.reads ((first :: more).flatMap Tree.splice) ≠ [] :=
    Tree.reads_ne_nil (List.append_ne_nil_of_left_ne_nil (Tree.splice_ne_nil first) _)
  rw [ofTypeText_text h fun u hu hc => Tree.unionModels_of_union hu (hc.trans hcore)]
  cases hreads : Tree.reads ((first :: more).flatMap Tree.splice) with
  | nil => exact absurd hreads hne
  | cons model models => rfl

/-- A tree around a name is resolved as the name. -/
theorem ofTypeText_of_name (h : t.OfModels) {w : String}
    (hcore : t.core = .name w) : ofTypeText t.text = primitive w.toList := by
  rw [ofTypeText_text h fun u hu hc => Tree.unionModels_of_name hu (hc.trans hcore), hcore]
  rfl

end Schema
end ApiSync
