import ApiSync.Diff.Script
/-!
# Scripts lead from one list of lines to the other

The kept and deleted lines of a script are its old side, the kept and inserted ones its new side.
Every path of the search has passed over the beginnings of both lists: its edits and what is left
of a list make up that list on either side.  So a path that has reached both ends is a script
between them, whichever diagonals the search went through.
-/

namespace ApiSync
namespace Diff

/-- The two texts that a diff is between. -/
inductive Side where
  | old
  | new
deriving DecidableEq, Repr

namespace Side

def other : Side → Side
  | .old => .new
  | .new => .old

/-- The one of two things that belongs to the side. -/
def pick (s : Side) (old new : α) : α :=
  match s with
  | .old => old
  | .new => new

@[simp] theorem pick_old (a b : α) : pick .old a b = a := rfl

@[simp] theorem pick_new (a b : α) : pick .new a b = b := rfl

end Side

/-- The line that an edit has on a side. -/
def Edit.on (s : Side) : Edit → Option String
  | .keep l => some l
  | .delete l => s.pick (some l) none
  | .insert l => s.pick none (some l)

/-- The lines of the edits on a side. -/
def linesOn (s : Side) (edits : List Edit) : List String := edits.filterMap (Edit.on s)

@[simp] theorem linesOn_nil (s : Side) : linesOn s [] = [] := rfl

theorem linesOn_append (s : Side) (es fs : List Edit) :
    linesOn s (es ++ fs) = linesOn s es ++ linesOn s fs := List.filterMap_append

theorem linesOn_cons (s : Side) (e : Edit) (es : List Edit) :
    linesOn s (e :: es) = (e.on s).toList ++ linesOn s es := by
  rw [← List.singleton_append, linesOn_append]
  cases h : e.on s <;> simp [linesOn, h]

/-- Kept lines are the same on both sides. -/
@[simp] theorem linesOn_map_keep (s : Side) (lines : List String) :
    linesOn s (lines.map .keep) = lines := by
  induction lines with
  | nil => rfl
  | cons l lines ih => rw [List.map_cons, linesOn_cons, ih]; rfl

@[simp] theorem linesOn_map_delete (s : Side) (lines : List String) :
    linesOn s (lines.map .delete) = s.pick lines [] := by
  induction lines with
  | nil => cases s <;> rfl
  | cons l lines ih => cases s <;> simp_all [linesOn_cons, Edit.on]

@[simp] theorem linesOn_map_insert (s : Side) (lines : List String) :
    linesOn s (lines.map .insert) = s.pick [] lines := by
  induction lines with
  | nil => cases s <;> rfl
  | cons l lines ih => cases s <;> simp_all [linesOn_cons, Edit.on]

/-- The edits lead from one text to another. -/
def Leads (before after : List String) (edits : List Edit) : Prop :=
  ∀ s, linesOn s edits = s.pick before after

/-! ## Paths -/

namespace Path

/-- The edits of the path and what is left of the two lists make up the lists. -/
def Reached (before after : List String) (p : Path) : Prop :=
  ∀ s, linesOn s p.edits.reverse ++ s.pick p.before p.after = s.pick before after

variable {before after : List String} {p q : Path}

theorem Reached.leads (h : p.Reached before after) (hd : p.isDone = true) :
    Leads before after p.edits.reverse := by
  intro s
  have hends : p.before = [] ∧ p.after = [] := by simpa [isDone] using hd
  have hs := h s
  rw [hends.1, hends.2] at hs
  cases s <;> simpa using hs

theorem reached_slide {taken : Nat} {edits : List Edit} {as bs : List String}
    (h : (Path.mk taken as bs edits).Reached before after) :
    (slide taken edits as bs).Reached before after := by
  fun_induction slide taken edits as bs with
  | case1 taken edits as b bs ih =>
    apply ih
    intro s
    have hs := h s
    cases s <;> simpa [linesOn_append, linesOn_cons, Edit.on] using hs
  | case2 taken edits a as b bs hne => exact h
  | case3 taken edits as bs hends => exact h

theorem reached_start : (start before after).Reached before after := by
  apply reached_slide
  intro s
  rfl

theorem reached_delete (h : p.Reached before after) (hq : p.delete? = some q) :
    q.Reached before after := by
  rw [delete?] at hq
  split at hq
  · cases hq
  · next a as has =>
    obtain rfl := Option.some.inj hq
    apply reached_slide
    intro s
    have hs := h s
    rw [has] at hs
    cases s <;> simpa [linesOn_append, linesOn_cons, Edit.on] using hs

theorem reached_insert (h : p.Reached before after) (hq : p.insert? = some q) :
    q.Reached before after := by
  rw [insert?] at hq
  split at hq
  · cases hq
  · next b bs hbs =>
    obtain rfl := Option.some.inj hq
    apply reached_slide
    intro s
    have hs := h s
    rw [hbs] at hs
    cases s <;> simpa [linesOn_append, linesOn_cons, Edit.on] using hs

end Path

/-- Whichever way is chosen, it goes on from one of the two paths. -/
theorem reached_choose {before after : List String} {below above : Option Path} {p : Path}
    (hb : ∀ q, below = some q → q.Reached before after)
    (ha : ∀ q, above = some q → q.Reached before after) (h : choose? below above = some p) :
    p.Reached before after := by
  have hbelow : ∀ q, below.filter (·.before ≠ []) = some q → q.Reached before after :=
    fun q hq => hb q (Option.filter_eq_some_iff.mp hq).1
  have habove : ∀ q, above.filter (·.after ≠ []) = some q → q.Reached before after :=
    fun q hq => ha q (Option.filter_eq_some_iff.mp hq).1
  rw [choose?] at h
  split at h
  · cases h
  · next q hq _ => exact Path.reached_delete (hbelow q hq) h
  · next q _ hq => exact Path.reached_insert (habove q hq) h
  · next q r hq hr =>
    split at h
    · exact Path.reached_insert (habove r hr) h
    · exact Path.reached_delete (hbelow q hq) h

/-! ## The search -/

namespace Search

/-- All paths of the search have passed over the beginnings of the lists. -/
def Sound (before after : List String) (s : Search) : Prop :=
  ∀ e ∈ s.frontier, e.2.Reached before after

variable {before after : List String} {s : Search} {p : Path}

theorem Sound.at? (h : s.Sound before after) (d : Int) (hp : s.at? d = some p) :
    p.Reached before after := by
  obtain ⟨e, he, rfl⟩ := Option.map_eq_some_iff.mp hp
  exact h e (List.mem_of_find?_eq_some he)

theorem Sound.clear (h : s.Sound before after) (d : Int) : (s.clear d).Sound before after :=
  fun e he => h e (List.mem_filter.mp he).1

theorem Sound.put (h : s.Sound before after) (d : Int) (hp : p.Reached before after) :
    (s.put d p).Sound before after := by
  intro e he
  rcases List.mem_cons.mp he with rfl | hrest
  · exact hp
  · exact h e (List.mem_filter.mp hrest).1

theorem Sound.narrow (h : s.Sound before after) (d : Int) (q : Path) :
    (s.narrow d q).Sound before after := by
  have hfrontier : (s.narrow d q).frontier = s.frontier := by
    unfold Search.narrow
    dsimp only
    split <;> split <;> rfl
  intro e he
  rw [hfrontier] at he
  exact h e he

end Search

/-- What a round comes to is sound: a path that it finds has reached both ends. -/
def Round.Sound (before after : List String) : Round → Prop
  | .found p => p.Reached before after ∧ p.isDone = true
  | .going s => s.Sound before after

theorem sound_sweep {before after : List String} (length fuel : Nat) (d : Int) {s : Search}
    (h : s.Sound before after) : (sweep length fuel d s).Sound before after := by
  induction fuel generalizing d s with
  | zero => exact h
  | succ fuel ih =>
    rw [sweep]
    split
    · exact h
    · have hclear := h.clear (d - 1)
      dsimp only
      split
      · exact ih _ (hclear.clear d)
      · next p hp =>
        have hreached : p.Reached before after :=
          reached_choose (fun q => h.at? (d - 1)) (fun q => h.at? (d + 1)) hp
        split
        · next hdone => exact ⟨hreached, hdone⟩
        · exact ih _ ((hclear.put d hreached).narrow d p)

theorem reached_search {before after : List String} {fuel length : Nat} {s : Search} {p : Path}
    (h : s.Sound before after) (hp : search fuel length s = some p) :
    p.Reached before after ∧ p.isDone = true := by
  induction fuel generalizing length s with
  | zero => cases hp
  | succ fuel ih =>
    have hround := sound_sweep length (2 * length + 2) (max s.low (-(length : Int))) h
    rw [search] at hp
    split at hp
    · next q hq =>
      rw [hq] at hround
      obtain rfl := Option.some.inj hp
      exact hround
    · next t ht =>
      rw [ht] at hround
      exact ih hround hp

/-- Whatever the search comes to, the script leads from one text to the other. -/
theorem leads_script (before after : List String) :
    Leads before after (script before after) := by
  have hstart : (Path.start before after).Reached before after := Path.reached_start
  rw [script]
  dsimp only
  split
  · next hdone => exact hstart.leads hdone
  · split
    · next p hp =>
      have hsound : Search.Sound before after
          ⟨[(0, Path.start before after)], -((before.length + after.length : Nat) : Int),
            (before.length + after.length : Nat)⟩ := by
        intro e he
        rw [List.mem_singleton.mp he]
        exact hstart
      obtain ⟨hreached, hdone⟩ := reached_search hsound hp
      exact hreached.leads hdone
    · intro s
      rw [linesOn_append, linesOn_map_delete, linesOn_map_insert]
      cases s <;> simp

theorem slide_self (taken : Nat) (edits : List Edit) (lines : List String) :
    slide taken edits lines lines =
      ⟨taken + lines.length, [], [], (lines.map Edit.keep).reverse ++ edits⟩ := by
  induction lines generalizing taken edits with
  | nil => rfl
  | cons l lines ih =>
    rw [slide, if_pos rfl, ih]
    simp [Nat.add_comm, Nat.add_left_comm]

/-- Between a text and itself all lines are kept. -/
theorem script_self (lines : List String) : script lines lines = lines.map .keep := by
  rw [script]
  simp [Path.start, slide_self, Path.isDone]

end Diff
end ApiSync
