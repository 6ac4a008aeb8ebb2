import ApiSync.Diff.Unified
import ApiSync.Proofs.Diff.Script
/-!
# Hunks cut a script

Grouping the edits into runs loses nothing, and moving a deletion in front of an insertion
changes neither side.  `Cuts` says how the hunks lie in the script, seen from one side: kept
lines, a hunk that starts at its stated line, kept lines, and so on.  A hunk without any line of
a side is the whole script, because every other hunk has kept lines around its changes.
-/

namespace ApiSync
namespace Diff

/-! ## Runs -/

@[simp] theorem edits_keep (lines : List String) : (Run.mk .keep lines).edits = lines.map .keep :=
  rfl

theorem edits_cons (e : Edit) (lines : List String) :
    (Run.mk e.kind (e.line :: lines)).edits = e :: (Run.mk e.kind lines).edits := by
  cases e <;> rfl

/-- The edits of the runs one after the other. -/
def editsOf (runs : List Run) : List Edit := runs.flatMap Run.edits

theorem editsOf_cons (r : Run) (runs : List Run) : editsOf (r :: runs) = r.edits ++ editsOf runs :=
  List.flatMap_cons

theorem editsOf_runsOf (es : List Edit) : editsOf (runsOf es) = es := by
  induction es with
  | nil => rfl
  | cons e es ih =>
    rw [runsOf]
    split
    · next hnil =>
      rw [hnil] at ih
      rw [← ih, editsOf_cons, edits_cons]
      cases e <;> rfl
    · next r rs hcons =>
      rw [hcons, editsOf_cons] at ih
      split
      · next hkind => rw [hkind, editsOf_cons, edits_cons, ← hkind, List.cons_append, ih]
      · rw [editsOf_cons, editsOf_cons, ih, edits_cons]
        cases e <;> rfl

/-- No run is without lines. -/
def Filled (runs : List Run) : Prop := ∀ r ∈ runs, r.lines ≠ []

theorem Filled.head {r : Run} {rest : List Run} (h : Filled (r :: rest)) : r.lines ≠ [] :=
  h r List.mem_cons_self

theorem Filled.tail {r : Run} {rest : List Run} (h : Filled (r :: rest)) : Filled rest :=
  fun t ht => h t (List.mem_cons_of_mem r ht)

theorem filled_runsOf (es : List Edit) : Filled (runsOf es) := by
  induction es with
  | nil => intro r hr; cases hr
  | cons e es ih =>
    rw [runsOf]
    split
    · simp [Filled]
    · next r rs hcons =>
      rw [hcons] at ih
      have hrest : ∀ t ∈ rs, t.lines ≠ [] := fun t ht => ih t (List.mem_cons_of_mem r ht)
      split
      · exact List.forall_mem_cons.mpr ⟨List.cons_ne_nil _ _, hrest⟩
      · exact List.forall_mem_cons.mpr ⟨List.cons_ne_nil _ _, ih⟩

/-- A run of deletions or insertions is missing on one side. -/
theorem linesOn_eq_nil (s : Side) {r t : Run} (hr : r.kind = .delete) (ht : t.kind = .insert) :
    linesOn s r.edits = [] ∨ linesOn s t.edits = [] := by
  cases s
  · right; simp [Run.edits, ht]
  · left; simp [Run.edits, hr]

theorem linesOn_addRun (s : Side) (done : List Run) (r : Run) :
    linesOn s (editsOf (addRun done r).reverse) =
      linesOn s (editsOf done.reverse) ++ linesOn s r.edits := by
  cases done with
  | nil => simp [addRun, editsOf]
  | cons last rest =>
    rw [addRun]
    split
    · next h =>
      have hkinds : r.kind = .delete ∧ last.kind = .insert := by simpa using h
      rcases linesOn_eq_nil s hkinds.1 hkinds.2 with hnil | hnil <;>
        simp [editsOf, linesOn_append, hnil]
    · simp [editsOf, linesOn_append]

theorem linesOn_deletionsFirst (s : Side) (runs : List Run) :
    linesOn s (editsOf (deletionsFirst runs)) = linesOn s (editsOf runs) := by
  suffices h : ∀ done : List Run, linesOn s (editsOf (runs.foldl addRun done).reverse) =
      linesOn s (editsOf done.reverse) ++ linesOn s (editsOf runs) by
    exact h []
  induction runs with
  | nil => intro done; simp [editsOf]
  | cons r runs ih =>
    intro done
    rw [List.foldl_cons, ih, linesOn_addRun, editsOf_cons, linesOn_append, List.append_assoc]

theorem addRun_perm (done : List Run) (r : Run) : (addRun done r).Perm (r :: done) := by
  cases done with
  | nil => exact List.Perm.refl _
  | cons last rest =>
    rw [addRun]
    split
    · exact List.Perm.swap r last rest
    · exact List.Perm.refl _

theorem deletionsFirst_perm (runs : List Run) : (deletionsFirst runs).Perm runs := by
  suffices h : ∀ done : List Run, (runs.foldl addRun done).Perm (runs ++ done) by
    exact (List.reverse_perm _).trans (by simpa using h [])
  induction runs with
  | nil => intro done; exact List.Perm.refl _
  | cons r runs ih =>
    intro done
    exact (ih _).trans ((List.Perm.append_left runs (addRun_perm done r)).trans List.perm_middle)

theorem filled_deletionsFirst {runs : List Run} (h : Filled runs) : Filled (deletionsFirst runs) :=
  fun r hr => h r ((deletionsFirst_perm runs).subset hr)

/-! ## Counting lines -/

/-- The number of lines that a run has on a side. -/
def Run.count (s : Side) (r : Run) : Nat := s.pick r.oldCount r.newCount

theorem length_linesOn_edits (s : Side) (r : Run) : (linesOn s r.edits).length = r.count s := by
  obtain ⟨kind, lines⟩ := r
  cases kind <;> cases s <;> simp [Run.edits, Run.count, Run.oldCount, Run.newCount]

namespace Hunk

/-- The number of the first line on a side. -/
def start (s : Side) (h : Hunk) : Nat := s.pick h.oldStart h.newStart

def count (s : Side) (h : Hunk) : Nat := (linesOn s h.edits).length

@[simp] theorem start_add (s : Side) (h : Hunk) (edits : List Edit) :
    (h.add edits).start s = h.start s := rfl

theorem count_add (s : Side) (h : Hunk) (edits : List Edit) :
    (h.add edits).count s = h.count s + (linesOn s edits).length := by
  rw [count, count, add, linesOn_append, List.length_append]

theorem oldCount_eq (h : Hunk) : h.oldCount = h.count .old := by
  rw [oldCount, count, linesOn, List.length_filterMap_eq_countP]
  congr 1
  funext e
  cases e <;> rfl

theorem newCount_eq (h : Hunk) : h.newCount = h.count .new := by
  rw [newCount, count, linesOn, List.length_filterMap_eq_countP]
  congr 1
  funext e
  cases e <;> rfl

end Hunk

/-! ## Where the hunks lie -/

/-- On a side of which the line with the number `line` comes next, the hunks cut the edits: kept
lines and hunks in turn, each hunk where it states its start. -/
inductive Cuts (s : Side) : Nat → List Edit → List Hunk → Prop
  | kept (line : Nat) (gap : List String) : Cuts s line (gap.map .keep) []
  | hunk (line : Nat) (gap : List String) (h : Hunk) {rest : List Edit} {hs : List Hunk}
      (start : h.start s = line + gap.length) (next : Cuts s (h.start s + h.count s) rest hs) :
      Cuts s line (gap.map .keep ++ h.edits ++ rest) (h :: hs)

variable {s : Side}

/-- More kept lines in front. -/
theorem Cuts.gap {line : Nat} {es : List Edit} {hs : List Hunk} (lines : List String)
    (h : Cuts s (line + lines.length) es hs) : Cuts s line (lines.map .keep ++ es) hs := by
  cases h with
  | kept _ gap =>
    rw [← List.map_append]
    exact Cuts.kept line _
  | hunk _ gap h start next =>
    have hcut := Cuts.hunk line (lines ++ gap) h
      (by rw [start, List.length_append]; omega) next
    simpa using hcut

theorem length_lastLines (lines : List String) :
    (lastLines lines).length = min lines.length contextSize := by
  rw [lastLines, List.length_drop]
  omega

/-- The last lines of a longer text are among the last lines that it has behind a cut. -/
theorem lastLines_suffix_drop {lines : List String} {n : Nat}
    (h : n + contextSize ≤ lines.length) : lastLines lines <:+ lines.drop n := by
  have hdrop : lastLines lines = (lines.drop n).drop (lines.length - contextSize - n) := by
    rw [lastLines, List.drop_drop]
    congr 1
    omega
  rw [hdrop]
  exact List.drop_suffix _ _

/-- What the hunks of some runs have to be, with a hunk open or without one.  The open hunk is the
first of them.  With none open the lines passed last are a gap in front, of which only the end
is known: it is where the next hunk takes its context from. -/
def CutsFrom (s : Side) (line : Nat) (before : List String) (runs : List Run) (hs : List Hunk) :
    Option Hunk → Prop
  | none => ∀ gap : List String, lastLines before <:+ gap ∨ runs = [] → gap.length < line →
      Cuts s (line - gap.length) (gap.map .keep ++ editsOf runs) hs
  | some h => 0 < h.start s → h.start s + h.count s = line →
      Cuts s (h.start s) (h.edits ++ editsOf runs) hs

theorem pick_next (s : Side) (oldLine newLine : Nat) (r : Run) :
    s.pick (oldLine + r.oldCount) (newLine + r.newCount) = s.pick oldLine newLine + r.count s := by
  cases s <;> rfl

section CutsFrom

variable {line : Nat} {before : List String} {r : Run} {rest : List Run} {hs : List Hunk}

/-- Edits that an open hunk takes in. -/
theorem CutsFrom.add {h : Hunk} {passed : List String}
    (hnext : CutsFrom s (line + r.count s) passed rest hs (some (h.add r.edits))) :
    CutsFrom s line before (r :: rest) hs (some h) := by
  intro hpos hline
  have hcut := hnext hpos (by
    rw [Hunk.count_add, Hunk.start_add, length_linesOn_edits]
    omega)
  rw [editsOf_cons, ← List.append_assoc]
  exact hcut

/-- Kept lines while no hunk is open. -/
theorem CutsFrom.pass (hk : r.kind = .keep)
    (hnext : CutsFrom s (line + r.count s) r.lines rest hs none) :
    CutsFrom s line before (r :: rest) hs none := by
  obtain ⟨kind, lines⟩ := r
  obtain rfl : kind = .keep := hk
  intro gap _ hgap
  have hcount : Run.count s ⟨.keep, lines⟩ = lines.length := by cases s <;> rfl
  rw [hcount] at hnext
  have hsuffix : lastLines lines <:+ gap ++ lines :=
    (List.drop_suffix _ _).trans (List.suffix_append gap lines)
  have hcut := hnext (gap ++ lines) (.inl hsuffix) (by rw [List.length_append]; omega)
  have hline : line + lines.length - (gap ++ lines).length = line - gap.length := by
    rw [List.length_append]
    omega
  rw [hline, List.map_append, List.append_assoc] at hcut
  exact hcut

/-- A hunk that opens takes the end of the gap in front for its context. -/
theorem CutsFrom.openHunk {h : Hunk} {passed : List String} {runs : List Run} (hne : runs ≠ [])
    (hstart : h.start s = line - (lastLines before).length)
    (hedits : h.edits = (lastLines before).map .keep)
    (hopen : CutsFrom s line passed runs hs (some h)) : CutsFrom s line before runs hs none := by
  intro gap hgap hlt
  obtain ⟨front, rfl⟩ := hgap.resolve_right hne
  have hlength : (front ++ lastLines before).length = front.length + (lastLines before).length :=
    List.length_append
  have hcount : h.count s = (lastLines before).length := by
    rw [Hunk.count, hedits, linesOn_map_keep]
  have hcut := hopen (by omega) (by omega)
  have hat : h.start s = line - (front ++ lastLines before).length + front.length := by omega
  rw [hat] at hcut
  have hwhole := hcut.gap
  rw [hedits] at hwhole
  rw [List.map_append, List.append_assoc]
  exact hwhole

/-- Kept lines that end the open hunk, either because they are many or because they are the last
ones.  What the hunk does not take of them is a gap. -/
theorem CutsFrom.close {h : Hunk} (hk : r.kind = .keep)
    (hlong : 2 * contextSize < r.lines.length ∨ rest = [])
    (hnext : CutsFrom s (line + r.count s) r.lines rest hs none) :
    CutsFrom s line before (r :: rest)
      (h.add ((r.lines.take contextSize).map .keep) :: hs) (some h) := by
  obtain ⟨kind, lines⟩ := r
  obtain rfl : kind = .keep := hk
  intro hpos hline
  have hcount : Run.count s ⟨.keep, lines⟩ = lines.length := by cases s <;> rfl
  have htaken : (linesOn s ((lines.take contextSize).map .keep)).length =
      min contextSize lines.length := by rw [linesOn_map_keep, List.length_take]
  have hdropped : (lines.drop contextSize).length = lines.length - contextSize :=
    List.length_drop
  have hsuffix : lastLines lines <:+ lines.drop contextSize ∨ rest = [] :=
    hlong.imp_left fun hlt => lastLines_suffix_drop (by dsimp only at hlt; omega)
  have hcut := hnext (lines.drop contextSize) hsuffix (by omega)
  have hat : line + Run.count s ⟨.keep, lines⟩ - (lines.drop contextSize).length =
      h.start s + (h.add ((lines.take contextSize).map .keep)).count s := by
    rw [Hunk.count_add]
    omega
  rw [hat] at hcut
  have hwhole := Cuts.hunk (h.start s) [] (h.add ((lines.take contextSize).map .keep)) rfl hcut
  have hedits : [].map Edit.keep ++ (h.add ((lines.take contextSize).map .keep)).edits ++
      ((lines.drop contextSize).map .keep ++ editsOf rest) =
        h.edits ++ editsOf (⟨.keep, lines⟩ :: rest) := by
    have hlines : lines.map Edit.keep =
        (lines.take contextSize).map .keep ++ (lines.drop contextSize).map .keep := by
      rw [← List.map_append, List.take_append_drop]
    rw [editsOf_cons, edits_keep, hlines]
    simp only [Hunk.add, List.map_nil, List.nil_append, List.append_assoc]
  rw [hedits] at hwhole
  exact hwhole

end CutsFrom

theorem cutsFrom_hunksFrom (oldLine newLine : Nat) (before : List String) (hunk : Option Hunk)
    (runs : List Run) :
    CutsFrom s (s.pick oldLine newLine) before runs
      (hunksFrom oldLine newLine before hunk runs) hunk := by
  fun_induction hunksFrom oldLine newLine before hunk runs with
  | case1 oldLine newLine before hunk =>
    cases hunk with
    | none =>
      intro gap _ _
      rw [editsOf, List.flatMap_nil, List.append_nil]
      exact Cuts.kept _ gap
    | some h =>
      intro _ _
      have hcut := Cuts.hunk (s := s) (h.start s) [] h rfl (Cuts.kept _ [])
      simpa [editsOf] using hcut
  | case2 oldLine newLine before r rest oldNext newNext hk ih =>
    rw [pick_next] at ih
    exact ih.pass hk
  | case3 oldLine newLine before r rest oldNext newNext h hk hjoined ih =>
    rw [pick_next] at ih
    exact ih.add
  | case4 oldLine newLine before r rest oldNext newNext h hk hends ih =>
    rw [pick_next] at ih
    refine ih.close hk ?_
    by_cases hnil : rest = []
    · exact .inr hnil
    · left
      simpa [hnil] using hends
  | case5 oldLine newLine before r rest oldNext newNext context h hk ih =>
    rw [pick_next] at ih
    have hopen : CutsFrom s (s.pick oldLine newLine) before (r :: rest) _ (some h) := ih.add
    exact hopen.openHunk (List.cons_ne_nil r rest) (by cases s <;> rfl) rfl
  | case6 oldLine newLine before r rest oldNext newNext h hk ih =>
    rw [pick_next] at ih
    exact ih.add

/-! ## Hunks without a line of a side -/

def Hunk.HasKept (h : Hunk) : Prop := ∃ l, Edit.keep l ∈ h.edits

theorem Hunk.HasKept.count_ne_zero {h : Hunk} (hk : h.HasKept) (s : Side) : h.count s ≠ 0 := by
  obtain ⟨l, hl⟩ := hk
  have hmem : l ∈ linesOn s h.edits := List.mem_filterMap.mpr ⟨_, hl, rfl⟩
  exact Nat.pos_iff_ne_zero.mp (List.length_pos_of_mem hmem)

theorem hasKept_of_lines {h : Hunk} {front back : List Edit} {lines : List String}
    (hne : lines ≠ []) (hedits : h.edits = front ++ lines.map .keep ++ back) : h.HasKept := by
  obtain ⟨l, rest, rfl⟩ := List.exists_cons_of_ne_nil hne
  exact ⟨l, by rw [hedits]; simp⟩

theorem lastLines_ne_nil {lines : List String} (h : lines ≠ []) : lastLines lines ≠ [] := by
  have hlength := length_lastLines lines
  have hpos := List.length_pos_iff.mpr h
  intro hnil
  rw [hnil, List.length_nil, contextSize] at hlength
  omega

/-- The hunk starts where the runs do, at the open hunk or with nothing in front, and takes in
all of them. -/
def IsWhole (oldLine newLine : Nat) (before : List String) (runs : List Run) (whole : Hunk) :
    Option Hunk → Prop
  | none => before = [] ∧ whole.edits = editsOf runs ∧ ∀ s, whole.start s = s.pick oldLine newLine
  | some h => whole.edits = h.edits ++ editsOf runs ∧ ∀ s, whole.start s = h.start s

theorem IsWhole.add {oldLine newLine oldNext newNext : Nat} {before passed : List String} {r : Run}
    {rest : List Run} {whole h : Hunk}
    (hw : IsWhole oldNext newNext passed rest whole (some (h.add r.edits))) :
    IsWhole oldLine newLine before (r :: rest) whole (some h) := by
  refine ⟨?_, hw.2⟩
  rw [hw.1, editsOf_cons, Hunk.add, List.append_assoc]

/-- A hunk without kept lines takes in everything. -/
theorem hasKept_or_isWhole (oldLine newLine : Nat) (before : List String) (hunk : Option Hunk)
    {runs : List Run} (hf : Filled runs) :
    ∀ found ∈ hunksFrom oldLine newLine before hunk runs,
      found.HasKept ∨ IsWhole oldLine newLine before runs found hunk := by
  intro found hfound
  fun_induction hunksFrom oldLine newLine before hunk runs with
  | case1 oldLine newLine before hunk =>
    cases hunk with
    | none => cases hfound
    | some h =>
      right
      rw [List.mem_singleton.mp hfound]
      exact ⟨(List.append_nil h.edits).symm, fun _ => rfl⟩
  | case2 oldLine newLine before r rest oldNext newNext hk ih =>
    exact (ih hf.tail hfound).imp_right fun hw => absurd hw.1 hf.head
  | case3 oldLine newLine before r rest oldNext newNext h hk hjoined ih =>
    exact (ih hf.tail hfound).imp_right IsWhole.add
  | case4 oldLine newLine before r rest oldNext newNext h hk hends ih =>
    left
    rcases List.mem_cons.mp hfound with rfl | hlater
    · have htaken : r.lines.take contextSize ≠ [] := by simpa [contextSize] using hf.head
      exact hasKept_of_lines htaken (List.append_nil _).symm
    · exact (ih hf.tail hlater).resolve_right fun hw => hf.head hw.1
  | case5 oldLine newLine before r rest oldNext newNext context h hk ih =>
    rcases ih hf.tail hfound with hkept | hw
    · exact .inl hkept
    · have hadded : IsWhole oldLine newLine before (r :: rest) found (some h) := hw.add
      have hedits : found.edits = context.map .keep ++ editsOf (r :: rest) := hadded.1
      by_cases hbefore : before = []
      · right
        have hcontext : context = [] := by
          show lastLines before = []
          rw [hbefore]
          rfl
        refine ⟨hbefore, by rw [hedits, hcontext]; rfl, fun s => ?_⟩
        rw [hadded.2]
        cases s <;> simp [h, Hunk.start, hcontext]
      · left
        have hfront : found.edits = [] ++ (lastLines before).map .keep ++ editsOf (r :: rest) :=
          hedits
        exact hasKept_of_lines (lastLines_ne_nil hbefore) hfront
  | case6 oldLine newLine before r rest oldNext newNext h hk ih =>
    exact (ih hf.tail hfound).imp_right IsWhole.add

/-! ## The hunks of two texts -/

/-- The script that the hunks are cut from. -/
def arranged (before after : List String) : List Edit :=
  editsOf (deletionsFirst (runsOf (script before after)))

theorem leads_arranged (before after : List String) :
    Leads before after (arranged before after) := by
  intro s
  rw [arranged, linesOn_deletionsFirst, editsOf_runsOf]
  exact leads_script before after s

theorem cuts_hunks (s : Side) (before after : List String) :
    Cuts s 1 (arranged before after) (hunks before after) := by
  have hcuts := cutsFrom_hunksFrom (s := s) 1 1 [] none
    (deletionsFirst (runsOf (script before after)))
  have hline : s.pick 1 1 = 1 := by cases s <;> rfl
  rw [hline] at hcuts
  exact hcuts [] (.inl (List.suffix_refl _)) Nat.one_pos

/-- A text of which a hunk has no lines is empty, and the hunk starts in front of it. -/
theorem eq_nil_of_count_eq_zero {before after : List String} {h : Hunk}
    (hmem : h ∈ hunks before after) (s : Side) (hcount : h.count s = 0) :
    s.pick before after = [] ∧ h.start s = 1 := by
  have hfilled := filled_deletionsFirst (filled_runsOf (script before after))
  have hwhole := (hasKept_or_isWhole 1 1 [] none hfilled h hmem).resolve_left
    fun hk => hk.count_ne_zero s hcount
  obtain ⟨-, hedits, hstart⟩ := hwhole
  constructor
  · rw [← leads_arranged before after s, arranged, ← hedits]
    exact List.length_eq_zero_iff.mp hcount
  · rw [hstart]
    cases s <;> rfl

theorem hunksFrom_eq_nil {runs : List Run} (h : ∀ r ∈ runs, r.kind = .keep)
    (oldLine newLine : Nat) (before : List String) :
    hunksFrom oldLine newLine before none runs = [] := by
  induction runs generalizing oldLine newLine before with
  | nil => rfl
  | cons r runs ih =>
    have hrest : ∀ t ∈ runs, t.kind = .keep := fun t ht => h t (List.mem_cons_of_mem r ht)
    obtain ⟨kind, lines⟩ := r
    obtain rfl : kind = .keep := h _ List.mem_cons_self
    exact ih hrest _ _ lines

theorem kind_of_mem_runsOf {es : List Edit} {r : Run} (h : r ∈ runsOf es) :
    ∃ e ∈ es, e.kind = r.kind := by
  induction es generalizing r with
  | nil => cases h
  | cons e es ih =>
    rw [runsOf] at h
    have hlater : ∀ {t : Run}, t ∈ runsOf es → ∃ d ∈ e :: es, d.kind = t.kind := fun ht =>
      (ih ht).imp fun d hd => ⟨List.mem_cons_of_mem e hd.1, hd.2⟩
    split at h
    · rw [List.mem_singleton.mp h]
      exact ⟨e, List.mem_cons_self, rfl⟩
    · next t rs hcons =>
      split at h
      · next hkind =>
        rcases List.mem_cons.mp h with rfl | hrest
        · exact ⟨e, List.mem_cons_self, hkind.symm⟩
        · exact hlater (hcons ▸ List.mem_cons_of_mem t hrest)
      · rcases List.mem_cons.mp h with rfl | hrest
        · exact ⟨e, List.mem_cons_self, rfl⟩
        · exact hlater (hcons ▸ hrest)

/-- There are no hunks exactly between a text and itself. -/
theorem hunks_eq_nil_iff (before after : List String) :
    hunks before after = [] ↔ before = after := by
  constructor
  · intro hnil
    have hcuts := cuts_hunks .old before after
    rw [hnil] at hcuts
    generalize hes : arranged before after = es at hcuts
    cases hcuts with
    | kept _ gap =>
      have hold := leads_arranged before after .old
      have hnew := leads_arranged before after .new
      rw [hes, linesOn_map_keep] at hold hnew
      exact hold.symm.trans hnew
  · rintro rfl
    apply hunksFrom_eq_nil
    intro r hr
    have hrun := (deletionsFirst_perm _).subset hr
    rw [script_self] at hrun
    obtain ⟨e, he, hkind⟩ := kind_of_mem_runsOf hrun
    obtain ⟨l, -, rfl⟩ := List.mem_map.mp he
    exact hkind.symm

/-! ## What a cut says of its hunks -/

theorem Cuts.start_ge {line : Nat} {es : List Edit} {hs : List Hunk} (hc : Cuts s line es hs) :
    ∀ h ∈ hs, line ≤ h.start s := by
  induction hc with
  | kept => intro h hh; cases hh
  | hunk line gap h start next ih =>
    intro g hg
    rcases List.mem_cons.mp hg with rfl | hlater
    · omega
    · have := ih g hlater
      omega

/-- Each hunk ends before the next one starts. -/
theorem Cuts.pairwise {line : Nat} {es : List Edit} {hs : List Hunk} (hc : Cuts s line es hs) :
    hs.Pairwise fun g h => g.start s + g.count s ≤ h.start s := by
  induction hc with
  | kept => exact List.Pairwise.nil
  | hunk line gap h start next ih => exact List.Pairwise.cons next.start_ge ih

/-- The lines of a hunk stand in the text from its start on. -/
theorem Cuts.lines_at {line : Nat} {es : List Edit} {hs : List Hunk} (hc : Cuts s line es hs) :
    ∀ h ∈ hs, ((linesOn s es).drop (h.start s - line)).take (h.count s) = linesOn s h.edits := by
  induction hc with
  | kept => intro h hh; cases hh
  | hunk line gap h start next ih =>
    rename_i rest hs
    intro g hg
    rw [linesOn_append, linesOn_append, linesOn_map_keep, List.append_assoc]
    rcases List.mem_cons.mp hg with rfl | hlater
    · have hskip : g.start s - line = gap.length := by omega
      rw [hskip, List.drop_left, Hunk.count, List.take_left]
    · have hge := next.start_ge g hlater
      have hskip : g.start s - line =
          (gap ++ linesOn s h.edits).length + (g.start s - (h.start s + h.count s)) := by
        rw [List.length_append]
        simp only [Hunk.count] at hge ⊢
        omega
      rw [← List.append_assoc, hskip, ← List.drop_drop, List.drop_left]
      exact ih g hlater

end Diff
end ApiSync
