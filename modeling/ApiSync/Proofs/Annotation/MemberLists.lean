import ApiSync.Proofs.Annotation.WellBracketed
/-!
# Lists of members

The members that a text is split into are separated by its commas outside of brackets.  As long as
every bracket that is opened is closed and none is closed before, splitting and joining undo each
other: members come back from a list with any blanks around them, and what a text is split into can
be joined and split once more.
-/

namespace ApiSync
namespace Annotation

open Text

/-- A member as it stands in a list: without blanks at its ends, not empty, with brackets that are
closed in turn, and with no comma outside of them. -/
structure IsListed (m : List Char) : Prop where
  trimmed : trim m = m
  nonempty : m ≠ []
  balanced : square.Balanced m
  single : NoTopComma m

theorem IsListed.isMember {m : List Char} (h : IsListed m) : IsMember m :=
  isMember_of_balanced h.balanced h.single

/-- The text is the member with blanks around it. -/
def IsPadded (m text : List Char) : Prop :=
  ∃ before after, (∀ c ∈ before, isBlank c = true) ∧ (∀ c ∈ after, isBlank c = true) ∧
    text = before ++ (m ++ after)

theorem IsListed.padded {m text : List Char} (h : IsListed m) (hpadded : IsPadded m text) :
    IsMember text ∧ trim text = m := by
  obtain ⟨before, after, hbefore, hafter, rfl⟩ := hpadded
  refine ⟨isMember_padded hbefore hafter h.isMember, ?_⟩
  rw [trim_padded hbefore hafter]
  exact h.trimmed

/-- Joined with commas, padded members are split into the members. -/
theorem members_of_padded {ms texts : List (List Char)} (h : ∀ m ∈ ms, IsListed m)
    (hpadded : List.Forall₂ IsPadded ms texts) : members (joinWith [','] texts) = ms := by
  have htexts : (∀ t ∈ texts, IsMember t) ∧ texts.map trim = ms := by
    induction hpadded with
    | nil => exact ⟨nofun, rfl⟩
    | cons hfirst _ ih =>
      obtain ⟨hm, hms⟩ := List.forall_mem_cons.mp h
      obtain ⟨hmember, htrim⟩ := hm.padded hfirst
      obtain ⟨hrest, hmap⟩ := ih hms
      exact ⟨List.forall_mem_cons.mpr ⟨hmember, hrest⟩, congrArg₂ List.cons htrim hmap⟩
  obtain ⟨hmembers, rfl⟩ := htexts
  by_cases hnil : texts = []
  · rw [hnil]
    rfl
  · have hne : ∀ t ∈ texts, trim t ≠ [] := fun t ht =>
      (h (trim t) (List.mem_map_of_mem ht)).nonempty
    exact members_joinWith hnil hmembers hne

/-- The members of a balanced text may stand in a list. -/
theorem isListed_of_mem_members {text m : List Char} (h : square.Balanced text)
    (hm : m ∈ members text) : IsListed m := by
  have hpiece := (mem_members h.net_eq hm).1
  exact ⟨hpiece.trimmed, hpiece.nonempty, (balanced_iff_members h.net_eq).mp h m hm, hpiece.single⟩

/-- Splitting gives the members back that were joined by commas, with any blanks around them.  A
text whose brackets are closed in turn is split into such members, and they are split the same way
when they are joined again. -/
theorem splitting_undoes_joining :
    (∀ ms texts : List (List Char), (∀ m ∈ ms, IsListed m) → List.Forall₂ IsPadded ms texts →
      members (joinWith [','] texts) = ms) ∧
    ∀ text, square.Balanced text → (∀ m ∈ members text, IsListed m) ∧
      members (commaJoin (members text)) = members text := by
  refine ⟨fun _ _ => members_of_padded, fun text h => ?_⟩
  have hlisted : ∀ m ∈ members text, IsListed m := fun m => isListed_of_mem_members h
  refine ⟨hlisted, ?_⟩
  rw [members_of_members fun m hm => (hlisted m hm).isMember,
    tidy_eq_self (fun m hm => (hlisted m hm).trimmed) fun m hm => (hlisted m hm).nonempty]

/-- Commas in brackets, several kinds of blanks, and a list with empty members and a last comma. -/
theorem splitting_undoes_joining_nested :
    (∀ m ∈ ["Dict[str, List[A]]".toList, "B".toList], IsListed m) ∧
    List.Forall₂ IsPadded ["Dict[str, List[A]]".toList, "B".toList]
      ["\tDict[str, List[A]] ".toList, "\n B".toList] ∧
    members "\tDict[str, List[A]] ,\n B".toList = ["Dict[str, List[A]]".toList, "B".toList] ∧
    square.Balanced ", Dict[str, List[A]],, B ,".toList ∧
    members "Dict[str, List[A]], B".toList = members ", Dict[str, List[A]],, B ,".toList := by
  obtain ⟨hsplit, hjoin⟩ := splitting_undoes_joining
  have hbalanced : square.Balanced ", Dict[str, List[A]],, B ,".toList := by decide
  have hmembers : members ", Dict[str, List[A]],, B ,".toList =
      ["Dict[str, List[A]]".toList, "B".toList] := by decide
  obtain ⟨hlisted, hagain⟩ := hjoin _ hbalanced
  rw [hmembers] at hlisted hagain
  have hspace : ∀ c ∈ [' '], isBlank c = true := List.forall_mem_singleton.mpr rfl
  have hpadded : List.Forall₂ IsPadded ["Dict[str, List[A]]".toList, "B".toList]
      ["\tDict[str, List[A]] ".toList, "\n B".toList] :=
    .cons ⟨['\t'], [' '], List.forall_mem_singleton.mpr rfl, hspace, rfl⟩
      (.cons ⟨['\n', ' '], [], List.forall_mem_cons.mpr ⟨rfl, hspace⟩,
        List.forall_mem_nil _, rfl⟩ .nil)
  exact ⟨hlisted, hpadded, hsplit _ _ hlisted hpadded, hbalanced, hagain.trans hmembers.symm⟩

end Annotation
end ApiSync
