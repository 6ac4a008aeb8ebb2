import ApiSync.Path
import ApiSync.Proofs.Text
import ApiSync.Value
/-!
# A path is the names that it leads through

The names of a path are without slashes and points, so the path that is made of them has the same
names again.  Two resolved paths are the same text exactly if they lead to the same place.
-/

namespace ApiSync

namespace Path

/-- A name that a path can lead through. -/
structure IsName (name : String) : Prop where
  ne_empty : name ≠ ""
  ne_here : name ≠ "."
  ne_above : name ≠ ".."
  no_slash : '/' ∉ name.toList

theorem settle_of_names {ns : List String} (h : ∀ n ∈ ns, IsName n) (above : List String) :
    settle above ns = above.reverse ++ ns := by
  induction ns generalizing above with
  | nil => rw [settle, List.append_nil]
  | cons n ns ih =>
    have hn := h n List.mem_cons_self
    rw [settle, if_neg (by simp [hn.ne_empty, hn.ne_here]), if_neg hn.ne_above,
      ih fun m hm => h m (List.mem_cons_of_mem n hm)]
    simp

theorem isName_of_mem_settle {above ps : List String} (ha : ∀ n ∈ above, IsName n)
    (hp : ∀ p ∈ ps, '/' ∉ p.toList) : ∀ n ∈ settle above ps, IsName n := by
  induction ps generalizing above with
  | nil =>
    intro n hn
    exact ha n (List.mem_reverse.mp hn)
  | cons p ps ih =>
    have hrest : ∀ q ∈ ps, '/' ∉ q.toList := fun q hq => hp q (List.mem_cons_of_mem p hq)
    rw [settle]
    split
    · exact ih ha hrest
    · next hkept =>
      split
      · exact ih (fun n hn => ha n (List.mem_of_mem_drop hn)) hrest
      · next habove =>
        have hname : p ≠ "" ∧ p ≠ "." := by simpa using hkept
        refine ih (List.forall_mem_cons.mpr ⟨?_, ha⟩) hrest
        exact ⟨hname.1, hname.2, habove, hp p List.mem_cons_self⟩

theorem isName_of_mem_names {path name : String} (h : name ∈ names path) : IsName name := by
  refine isName_of_mem_settle (fun _ hn => absurd hn List.not_mem_nil) ?_ name h
  intro p hp
  obtain ⟨piece, hpiece, rfl⟩ := List.mem_map.mp hp
  rw [String.toList_ofList]
  exact Text.not_mem_of_mem_splitAt hpiece

theorem names_ofNames {ns : List String} (h : ∀ n ∈ ns, IsName n) : names (ofNames ns) = ns := by
  cases hns : ns with
  | nil => decide
  | cons n rest =>
    have hne : ns ≠ [] := by rw [hns]; exact List.cons_ne_nil n rest
    have hsplit : Text.splitAt '/' (ofNames ns).toList = [] :: ns.map String.toList := by
      have htext : (ofNames ns).toList = [] ++ '/' :: ['/'].intercalate (ns.map String.toList) := by
        rw [ofNames, String.toList_append, String.toList_intercalate]
        rfl
      rw [htext, Text.splitAt_append_cons, Text.splitAt_intercalate]
      · rfl
      · simpa using hne
      · intro piece hpiece
        obtain ⟨m, hm, rfl⟩ := List.mem_map.mp hpiece
        exact (h m hm).no_slash
    have hpieces : pieces (ofNames ns) = "" :: ns := by
      rw [pieces, Text.splitText, hsplit]
      simp [Function.comp_def]
    rw [← hns, names, hpieces, settle]
    exact settle_of_names h []

/-- A path from the top is no index. -/
theorem indexOf?_ofNames (ns : List String) : Fields.indexOf? (ofNames ns) = none := by
  have hslash : (ofNames ns).toList = '/' :: ("/".intercalate ns).toList := by
    rw [ofNames, String.toList_append]
    rfl
  have hdigit : ¬((ofNames ns).toList.all Char.isDigit = true) := by
    rw [hslash, List.all_cons]
    exact Bool.false_ne_true
  rw [Fields.indexOf?]
  exact if_neg fun h => hdigit h.2.1

/-- A resolved path is written by its names. -/
theorem ofNames_names_resolve (cwd path : String) :
    ofNames (names (resolve cwd path)) = resolve cwd path := by
  rw [resolve]
  split <;> rw [names_ofNames fun _ hn => isName_of_mem_names hn]

/-- Different resolved paths lead to different places. -/
theorem names_resolve_ne {cwd cwd' a b : String} (h : resolve cwd a ≠ resolve cwd' b) :
    names (resolve cwd a) ≠ names (resolve cwd' b) := by
  intro heq
  apply h
  rw [← ofNames_names_resolve cwd a, ← ofNames_names_resolve cwd' b, heq]

end Path
end ApiSync
