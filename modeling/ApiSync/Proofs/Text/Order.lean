import ApiSync.Text
/-!
# The order of names

Names are compared unit by unit.  The comparison is total and transitive, so sorting puts names in
ascending order; it is antisymmetric, so there is only one such order of different names.
-/

namespace ApiSync
namespace Text

theorem unitsLe_trans {as bs cs : List Nat} (hab : unitsLe as bs = true)
    (hbc : unitsLe bs cs = true) : unitsLe as cs = true := by
  induction as generalizing bs cs with
  | nil => rfl
  | cons a as ih =>
    cases bs with
    | nil => cases hab
    | cons b bs =>
      cases cs with
      | nil => cases hbc
      | cons c cs =>
        simp only [unitsLe, Bool.or_eq_true, Bool.and_eq_true, decide_eq_true_eq] at hab hbc ⊢
        rcases hab with hlt | ⟨heq, hrest⟩
        · left
          omega
        · rcases hbc with hlt | ⟨heq', hrest'⟩
          · left
            omega
          · exact Or.inr ⟨heq.trans heq', ih hrest hrest'⟩

theorem unitsLe_total (as bs : List Nat) : (unitsLe as bs || unitsLe bs as) = true := by
  induction as generalizing bs with
  | nil => rfl
  | cons a as ih =>
    cases bs with
    | nil => rfl
    | cons b bs =>
      have hrest := ih bs
      simp only [unitsLe, Bool.or_eq_true, Bool.and_eq_true, decide_eq_true_eq] at hrest ⊢
      have hcases : a < b ∨ a = b ∨ b < a := by omega
      rcases hcases with hlt | heq | hlt
      · exact Or.inl (Or.inl hlt)
      · exact hrest.imp (fun h => Or.inr ⟨heq, h⟩) fun h => Or.inr ⟨heq.symm, h⟩
      · exact Or.inr (Or.inl hlt)

theorem pairwise_sortNames (names : List String) :
    (sortNames names).Pairwise fun a b => nameLe a b = true :=
  @List.pairwise_mergeSort _ nameLe (fun _ _ _ hab hbc => unitsLe_trans hab hbc)
    (fun _ _ => unitsLe_total _ _) names

theorem unitsLe_antisymm {as bs : List Nat} (hab : unitsLe as bs = true)
    (hba : unitsLe bs as = true) : as = bs := by
  induction as generalizing bs with
  | nil =>
    cases bs with
    | nil => rfl
    | cons b bs => cases hba
  | cons a as ih =>
    cases bs with
    | nil => cases hab
    | cons b bs =>
      simp only [unitsLe, Bool.or_eq_true, Bool.and_eq_true, decide_eq_true_eq] at hab hba
      rcases hab with hlt | ⟨heq, hrest⟩
      · omega
      · rcases hba with hlt | ⟨-, hrest'⟩
        · omega
        · rw [heq, ih hrest hrest']

theorem lt_of_unitsLe {as bs : List Nat} (h : unitsLe as bs = true) (hne : as ≠ bs) : as < bs := by
  induction as generalizing bs with
  | nil =>
    cases bs with
    | nil => exact absurd rfl hne
    | cons b bs => exact List.Lex.nil
  | cons a as ih =>
    cases bs with
    | nil => cases h
    | cons b bs =>
      simp only [unitsLe, Bool.or_eq_true, Bool.and_eq_true, decide_eq_true_eq] at h
      rcases h with hlt | ⟨rfl, hrest⟩
      · exact List.Lex.rel hlt
      · exact List.Lex.cons (ih hrest fun heq => hne (heq ▸ rfl))

/-- The units of a character end where those of the next one start: what stands first in a text is
told from its units. -/
theorem charUnits_append_inj {c d : Char} {us vs : List Nat}
    (h : charUnits c ++ us = charUnits d ++ vs) : c = d ∧ us = vs := by
  have hc : c.toNat < 0xd800 ∨ (0xdfff < c.toNat ∧ c.toNat < 0x110000) := c.valid
  have hd : d.toNat < 0xd800 ∨ (0xdfff < d.toNat ∧ d.toNat < 0x110000) := d.valid
  rw [charUnits, charUnits] at h
  split at h <;> split at h
  · obtain ⟨hunit, hrest⟩ := List.cons.inj h
    exact ⟨Char.toNat_inj.mp hunit, hrest⟩
  · have hunit := (List.cons.inj h).1
    omega
  · have hunit := (List.cons.inj h).1
    omega
  · obtain ⟨hhigh, htail⟩ := List.cons.inj h
    obtain ⟨hlow, hrest⟩ := List.cons.inj htail
    exact ⟨Char.toNat_inj.mp (by omega), hrest⟩

theorem units_inj {as bs : List Char} (h : units as = units bs) : as = bs := by
  have hunit (c : Char) (cs : List Char) : units (c :: cs) ≠ [] := by
    rw [units, List.flatMap_cons, charUnits]
    split <;> exact List.cons_ne_nil _ _
  induction as generalizing bs with
  | nil =>
    cases bs with
    | nil => rfl
    | cons b bs => exact absurd h.symm (hunit b bs)
  | cons a as ih =>
    cases bs with
    | nil => exact absurd h (hunit a as)
    | cons b bs =>
      obtain ⟨hfirst, hrest⟩ := charUnits_append_inj h
      rw [hfirst, ih hrest]

theorem nameLe_antisymm {a b : String} (hab : nameLe a b = true) (hba : nameLe b a = true) :
    a = b := String.toList_inj.mp (units_inj (unitsLe_antisymm hab hba))

theorem nameLe_trans {a b c : String} (hab : nameLe a b = true) (hbc : nameLe b c = true) :
    nameLe a c = true := unitsLe_trans hab hbc

theorem sortNames_nil : sortNames [] = [] := List.mergeSort_nil

/-- Names that are left out may be left out before sorting. -/
theorem sortNames_filter (p : String → Bool) (names : List String) :
    sortNames (names.filter p) = (sortNames names).filter p := by
  have hperm : (sortNames (names.filter p)).Perm ((sortNames names).filter p) :=
    (List.mergeSort_perm _ nameLe).trans ((List.mergeSort_perm names nameLe).filter p).symm
  exact hperm.eq_of_pairwise (fun _ _ _ _ => nameLe_antisymm) (pairwise_sortNames _)
    ((pairwise_sortNames names).filter p)

/-! ## Names without repetitions -/

theorem mem_distinct {α : Type} [BEq α] [LawfulBEq α] {a : α} {xs : List α} :
    a ∈ distinct xs ↔ a ∈ xs := by
  induction xs with
  | nil => exact Iff.rfl
  | cons x xs ih =>
    rw [distinct, List.mem_cons, List.mem_filter, ih, List.mem_cons, bne_iff_ne]
    by_cases hx : a = x
    · exact iff_of_true (Or.inl hx) (Or.inl hx)
    · rw [and_iff_left hx]

theorem nodup_distinct {α : Type} [BEq α] [LawfulBEq α] (xs : List α) : (distinct xs).Nodup := by
  induction xs with
  | nil => exact List.nodup_nil
  | cons x xs ih =>
    rw [distinct, List.nodup_cons, List.mem_filter, bne_self_eq_false]
    exact ⟨fun h => Bool.false_ne_true h.2, ih.filter _⟩

/-- Each name comes before the next one, and no name comes twice. -/
def Ascending (names : List String) : Prop :=
  names.Pairwise fun a b => nameLe a b = true ∧ a ≠ b

theorem ascending_sortNames_distinct (names : List String) :
    Ascending (sortNames (distinct names)) :=
  (pairwise_sortNames _).and
    ((List.mergeSort_perm (distinct names) nameLe).nodup_iff.mpr (nodup_distinct names))

theorem mem_sortNames_distinct {name : String} {names : List String} :
    name ∈ sortNames (distinct names) ↔ name ∈ names :=
  List.mem_mergeSort.trans mem_distinct

/-- Sorted names without repetitions tell which names there are, and nothing else. -/
theorem sortNames_distinct_eq_iff {as bs : List String} :
    sortNames (distinct as) = sortNames (distinct bs) ↔ ∀ name, name ∈ as ↔ name ∈ bs := by
  constructor
  · intro h name
    rw [← mem_sortNames_distinct, h, mem_sortNames_distinct]
  · intro h
    have hperm : (sortNames (distinct as)).Perm (sortNames (distinct bs)) := by
      refine (List.mergeSort_perm _ nameLe).trans (List.Perm.trans ?_
        (List.mergeSort_perm _ nameLe).symm)
      refine (List.perm_ext_iff_of_nodup (nodup_distinct as) (nodup_distinct bs)).mpr fun name => ?_
      rw [mem_distinct, mem_distinct, h]
    exact hperm.eq_of_pairwise (fun _ _ _ _ => nameLe_antisymm) (pairwise_sortNames _)
      (pairwise_sortNames _)

end Text
end ApiSync
