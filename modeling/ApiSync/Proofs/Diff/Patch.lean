import ApiSync.Proofs.Diff.Hunks
import ApiSync.Proofs.Text
/-!
# A diff is a patch between its texts

`Patch.hunks?` reads the lines of a diff the way patches are read: a header states a range of old
and one of new lines, and the edits that follow belong to it until both ranges are filled.  So a
line that looks like a header or like another edit cannot be taken for one.  `Patch.apply` puts
the hunks into a text at the stated places, from the old side to the new one or the other way
around, and gives up where a line is not the one that it should be.
-/

namespace ApiSync
namespace Diff

/-- A range of lines: the number of its first line, counted from one, and how many lines it has.
Without any it states the line that it follows. -/
structure Range where
  start : Nat
  count : Nat
deriving DecidableEq, Repr

namespace Range

/-- How many lines stand in front of the range. -/
def passed (r : Range) : Nat := if r.count = 0 then r.start else r.start - 1

/-- How many lines there are up to the end of the range. -/
def stop (r : Range) : Nat := r.passed + r.count

/-- The range is the one of the lines in the text; in an empty text it is `0,0`. -/
structure Covers (text lines : List String) (r : Range) : Prop where
  count : r.count = lines.length
  lines : (text.drop (r.start - 1)).take r.count = lines
  start : if text = [] then r = ⟨0, 0⟩ else 0 < r.start ∧ 0 < r.count

end Range

/-- A hunk as a patch states it. -/
structure Stated where
  old : Range
  new : Range
  edits : List Edit
deriving DecidableEq, Repr

def Stated.range (s : Side) (h : Stated) : Range := s.pick h.old h.new

namespace Patch

/-! ## Reading -/

def number? : List Char → Option Nat
  | [] => none
  | c :: cs =>
    if (c :: cs).all Char.isDigit then some (Nat.ofDigitChars 10 (c :: cs) 0) else none

/-- A start and a length behind a mark; a length that is left out is one. -/
def range? (mark : Char) : List Char → Option Range
  | [] => none
  | c :: text =>
    if c ≠ mark then none
    else match Text.splitAt ',' text with
      | [start] => (number? start).map (⟨·, 1⟩)
      | [start, count] => (number? start).bind fun n => (number? count).map (⟨n, ·⟩)
      | _ => none

/-- The ranges of old and new lines in a header. -/
def header? (line : String) : Option (Range × Range) :=
  match Text.splitAt ' ' line.toList with
  | [['@', '@'], old, new, ['@', '@']] =>
    (range? '-' old).bind fun o => (range? '+' new).map (o, ·)
  | _ => none

/-- An edit by the first character of its line. -/
def edit? (line : String) : Option Edit :=
  match line.toList with
  | ' ' :: cs => some (.keep (String.ofList cs))
  | '-' :: cs => some (.delete (String.ofList cs))
  | '+' :: cs => some (.insert (String.ofList cs))
  | _ => none

/-- How many lines an edit has on a side. -/
def size (s : Side) (e : Edit) : Nat := (linesOn s [e]).length

/-- The edits of a hunk that still lacks `old` and `new` lines, and the hunks behind it. -/
def hunksFrom? (old new : Nat) : List String → Option (List Edit × List Stated)
  | [] => if old = 0 ∧ new = 0 then some ([], []) else none
  | line :: rest =>
    if old = 0 ∧ new = 0 then
      (header? line).bind fun (o, n) =>
        (hunksFrom? o.count n.count rest).map fun (edits, hs) => ([], ⟨o, n, edits⟩ :: hs)
    else
      (edit? line).bind fun e =>
        if size .old e ≤ old ∧ size .new e ≤ new then
          (hunksFrom? (old - size .old e) (new - size .new e) rest).map fun (edits, hs) =>
            (e :: edits, hs)
        else none

/-- The hunks that lines state. -/
def hunks? (lines : List String) : Option (List Stated) := (hunksFrom? 0 0 lines).map (·.2)

/-! ## Applying -/

/-- Puts the hunks into the rest of a text of which some lines are passed.  A hunk that starts
among these, beyond the end or at other lines than its own does not fit. -/
def applyFrom (s : Side) (passed : Nat) : List Stated → List String → Option (List String)
  | [], text => some text
  | h :: hs, text =>
    let gap := (h.range s).passed - passed
    if (h.range s).passed < passed ∨ text.length < gap then none
    else match (linesOn s h.edits).isPrefixOf? (text.drop gap) with
      | none => none
      | some rest =>
        (applyFrom s (h.range s).stop hs rest).map
          (text.take gap ++ linesOn s.other h.edits ++ ·)

/-- The text of the other side. -/
def apply (s : Side) (hs : List Stated) (text : List String) : Option (List String) :=
  applyFrom s 0 hs text

end Patch

/-- The hunks are a correct patch between two texts: each range is that of the lines in its body,
the hunks come one after the other on both sides, and either text becomes the other one. -/
structure IsPatch (before after : List String) (hs : List Stated) : Prop where
  covers : ∀ h ∈ hs, ∀ s : Side,
    (h.range s).Covers (s.pick before after) (linesOn s h.edits)
  ordered : ∀ s : Side, hs.Pairwise fun g h => (g.range s).stop ≤ (h.range s).passed
  forward : Patch.apply .old hs before = some after
  backward : Patch.apply .new hs after = some before

/-! ## What the lines of a hunk state -/

/-- The range of a hunk on a side. -/
def Hunk.range (s : Side) (h : Hunk) : Range :=
  ⟨if h.count s = 0 then 0 else h.start s, h.count s⟩

def Hunk.stated (h : Hunk) : Stated := ⟨h.range .old, h.range .new, h.edits⟩

@[simp] theorem Hunk.range_stated (s : Side) (h : Hunk) : h.stated.range s = h.range s := by
  cases s <;> rfl

namespace Patch

theorem number?_toDigits (n : Nat) : number? (Nat.toDigits 10 n) = some n := by
  have hdigits : (Nat.toDigits 10 n).all Char.isDigit = true :=
    List.all_eq_true.mpr fun c hc => Nat.isDigit_of_mem_toDigits (by omega) (by omega) hc
  obtain ⟨c, cs, hcs⟩ := List.exists_cons_of_ne_nil (Nat.toDigits_ne_nil (n := n) (b := 10))
  rw [hcs] at hdigits ⊢
  rw [number?, if_pos hdigits, ← hcs, Nat.ofDigitChars_ten_toDigits]

theorem not_mem_toDigits {c : Char} (hc : c.isDigit = false) (n : Nat) :
    c ∉ Nat.toDigits 10 n := by
  intro hmem
  rw [Nat.isDigit_of_mem_toDigits (by omega) (by omega) hmem] at hc
  cases hc

/-- A range that is empty stands at line zero. -/
theorem toList_rangeText (start count : Nat) :
    (rangeText start count).toList =
      if count = 1 then Nat.toDigits 10 start
      else Nat.toDigits 10 (if count = 0 then 0 else start) ++ ',' :: Nat.toDigits 10 count := by
  have hcomma : (toString ",").toList = [','] := by decide
  rw [rangeText]
  split
  · rw [Nat.toString_eq_ofList_toDigits, String.toList_ofList]
  · split
    · next hzero =>
      rw [hzero]
      decide
    · simp [String.toList_append, hcomma]

theorem range?_rangeText (mark : Char) (start count : Nat) :
    range? mark (mark :: (rangeText start count).toList) =
      some ⟨if count = 0 then 0 else start, count⟩ := by
  have hdigits (n : Nat) := Text.splitAt_of_not_mem (not_mem_toDigits (c := ',') rfl n)
  rw [range?, if_neg (by simp), toList_rangeText]
  by_cases hone : count = 1
  · rw [if_pos hone, hdigits, hone]
    simp [number?_toDigits]
  · rw [if_neg hone, Text.splitAt_append_cons, hdigits, hdigits]
    simp [number?_toDigits]

theorem not_mem_rangeText (start count : Nat) : ' ' ∉ (rangeText start count).toList := by
  have hdigits (n : Nat) := not_mem_toDigits (c := ' ') rfl n
  rw [toList_rangeText]
  split
  · exact hdigits start
  · simp [hdigits]

/-- The header of a hunk, as `Hunk.lines` writes it. -/
def header (h : Hunk) : String :=
  let old := rangeText h.oldStart h.oldCount
  let new := rangeText h.newStart h.newCount
  s!"@@ -{old} +{new} @@"

theorem toList_header (h : Hunk) :
    (header h).toList = ['@', '@'] ++ ' ' :: ('-' :: (rangeText h.oldStart h.oldCount).toList ++
      ' ' :: ('+' :: (rangeText h.newStart h.newCount).toList ++ ' ' :: ['@', '@'])) := by
  have htext : header h = "@@ -" ++ rangeText h.oldStart h.oldCount ++ " +" ++
      rangeText h.newStart h.newCount ++ " @@" := rfl
  simp [htext, String.toList_append]

/-- The header states the ranges of the hunk. -/
theorem header?_header (h : Hunk) : header? (header h) = some (h.range .old, h.range .new) := by
  have hfront : Text.splitAt ' ' ['@', '@'] = [['@', '@']] := by decide
  have hsplit : ∀ (mark : Char) (start count : Nat), mark ≠ ' ' →
      Text.splitAt ' ' (mark :: (rangeText start count).toList) =
        [mark :: (rangeText start count).toList] := by
    intro mark start count hmark
    apply Text.splitAt_of_not_mem
    simp [not_mem_rangeText, hmark.symm]
  rw [header?, toList_header, Text.splitAt_append_cons, Text.splitAt_append_cons,
    Text.splitAt_append_cons, hfront, hsplit _ _ _ (by decide), hsplit _ _ _ (by decide)]
  simp only [List.cons_append, List.nil_append, range?_rangeText, Hunk.oldCount_eq,
    Hunk.newCount_eq]
  rfl

theorem edit?_text (e : Edit) : edit? e.text = some e := by
  cases e <;> simp [edit?, Edit.text, String.toList_append]

theorem length_linesOn_cons (s : Side) (e : Edit) (es : List Edit) :
    (linesOn s (e :: es)).length = size s e + (linesOn s es).length := by
  rw [size, ← List.singleton_append, linesOn_append, List.length_append]

/-- Every edit has a line on one of the sides. -/
theorem size_pos (e : Edit) : 0 < size .old e ∨ 0 < size .new e := by
  cases e <;> simp [size, linesOn, Edit.on]

/-- The edits of a hunk are read up to the end of its ranges. -/
theorem hunksFrom?_edits (es : List Edit) (rest : List String) :
    hunksFrom? (linesOn .old es).length (linesOn .new es).length (es.map Edit.text ++ rest) =
      (hunksFrom? 0 0 rest).map fun (edits, hs) => (es ++ edits, hs) := by
  induction es with
  | nil => simp
  | cons e es ih =>
    have hpos := size_pos e
    rw [List.map_cons, List.cons_append, hunksFrom?, length_linesOn_cons, length_linesOn_cons,
      if_neg (by omega), edit?_text, Option.bind_some, if_pos (by omega), Nat.add_sub_cancel_left,
      Nat.add_sub_cancel_left, ih, Option.map_map]
    rfl

/-- The lines of hunks are read as these hunks. -/
theorem hunksFrom?_lines (hs : List Hunk) :
    hunksFrom? 0 0 (hs.flatMap Hunk.lines) = some ([], hs.map Hunk.stated) := by
  induction hs with
  | nil => rfl
  | cons h hs ih =>
    have hlines : h.lines = header h :: h.edits.map Edit.text := rfl
    have hedits := hunksFrom?_edits h.edits (hs.flatMap Hunk.lines)
    rw [List.flatMap_cons, hlines, List.cons_append, hunksFrom?, if_pos ⟨rfl, rfl⟩, header?_header,
      Option.bind_some]
    simp only [Hunk.range, Hunk.count]
    rw [hedits, ih]
    simp [Hunk.stated, Hunk.range, Hunk.count]

/-! ## Applying the hunks of two texts -/

section Applying

variable {s : Side} {before after : List String} {h : Hunk}

/-- In front of a hunk are the lines before its start, whether it has lines of the side or not. -/
theorem passed_range (hempty : h.count s = 0 → h.start s = 1) :
    (h.range s).passed = h.start s - 1 := by
  rw [Range.passed, Hunk.range]
  by_cases hzero : h.count s = 0
  · simp [hzero, hempty hzero]
  · simp [hzero]

theorem applyFrom_of_cuts {line : Nat} {es : List Edit} {hs : List Hunk}
    (hc : Cuts s line es hs) (hline : 0 < line)
    (hempty : ∀ h ∈ hs, h.count s = 0 → h.start s = 1) :
    applyFrom s (line - 1) (hs.map Hunk.stated) (linesOn s es) = some (linesOn s.other es) := by
  induction hc with
  | kept line gap => simp [applyFrom]
  | hunk line gap h start next ih =>
    rename_i rest hs
    have hpassed := passed_range (hempty h List.mem_cons_self)
    have hgap : (h.range s).passed - (line - 1) = gap.length := by omega
    have hstop : (h.range s).stop = h.start s + h.count s - 1 := by
      rw [Range.stop, hpassed, Hunk.range]
      dsimp only
      omega
    have htaken : (linesOn s h.edits).isPrefixOf? (linesOn s h.edits ++ linesOn s rest) =
        some (linesOn s rest) := List.isPrefixOf?_eq_some_iff_append_eq.mpr rfl
    have hlater := ih (by omega) fun g hg => hempty g (List.mem_cons_of_mem h hg)
    simp only [linesOn_append, linesOn_map_keep, List.append_assoc, List.map_cons, applyFrom,
      Hunk.range_stated, hgap]
    rw [if_neg (by rw [List.length_append]; omega), List.drop_left, List.take_left]
    dsimp only [Hunk.stated]
    rw [htaken, hstop]
    dsimp only
    rw [hlater, Option.map_some]

end Applying

end Patch

section Hunks

variable {before after : List String}

theorem covers_range {h : Hunk} (hmem : h ∈ hunks before after) (s : Side) :
    (h.range s).Covers (s.pick before after) (linesOn s h.edits) := by
  have hstart := (cuts_hunks s before after).start_ge h hmem
  have hlines := (cuts_hunks s before after).lines_at h hmem
  rw [leads_arranged before after s] at hlines
  have hshown : ((s.pick before after).drop ((h.range s).start - 1)).take (h.range s).count =
      linesOn s h.edits := by
    rw [Hunk.range]
    by_cases hzero : h.count s = 0
    · rw [hzero, List.take_zero]
      exact (List.length_eq_zero_iff.mp hzero).symm
    · simp only [if_neg hzero]
      exact hlines
  refine ⟨rfl, hshown, ?_⟩
  split
  · next hnil =>
    rw [hnil, List.drop_nil, List.take_nil] at hshown
    have hzero : h.count s = 0 := by rw [Hunk.count, ← hshown, List.length_nil]
    rw [Hunk.range, hzero, if_pos rfl]
  · next hne =>
    have hcount : h.count s ≠ 0 := fun hzero => hne (eq_nil_of_count_eq_zero hmem s hzero).1
    rw [Hunk.range, if_neg hcount]
    exact ⟨hstart, Nat.pos_of_ne_zero hcount⟩

theorem ordered_hunks (before after : List String) (s : Side) :
    ((hunks before after).map Hunk.stated).Pairwise fun g h =>
      (g.range s).stop ≤ (h.range s).passed := by
  rw [List.pairwise_map]
  have hcuts := cuts_hunks s before after
  refine hcuts.pairwise.imp_of_mem fun {g h} hg hh hgh => ?_
  have hpassed : ∀ {k : Hunk}, k ∈ hunks before after → (k.range s).passed = k.start s - 1 :=
    fun hk => Patch.passed_range fun hzero => (eq_nil_of_count_eq_zero hk s hzero).2
  have hstart := hcuts.start_ge g hg
  rw [Hunk.range_stated, Hunk.range_stated, Range.stop, hpassed hg, hpassed hh]
  dsimp only [Hunk.range]
  omega

theorem apply_hunks (before after : List String) (s : Side) :
    Patch.apply s ((hunks before after).map Hunk.stated) (s.pick before after) =
      some (s.other.pick before after) := by
  have happly := Patch.applyFrom_of_cuts (cuts_hunks s before after) Nat.one_pos
    fun h hh hzero => (eq_nil_of_count_eq_zero hh s hzero).2
  rw [leads_arranged before after s, leads_arranged before after s.other] at happly
  exact happly

/-- The hunks of two texts are a patch between them. -/
theorem isPatch_hunks (before after : List String) :
    IsPatch before after ((hunks before after).map Hunk.stated) where
  covers := by
    intro h hh s
    obtain ⟨k, hk, rfl⟩ := List.mem_map.mp hh
    rw [Hunk.range_stated]
    exact covers_range hk s
  ordered := ordered_hunks before after
  forward := apply_hunks before after .old
  backward := apply_hunks before after .new

end Hunks

/-! ## Whole diffs -/

/-- Lines without breaks are left as they are. -/
theorem splitLines_eq_self {lines : List String} (h : ∀ l ∈ lines, '\n' ∉ l.toList) :
    splitLines lines = lines := by
  induction lines with
  | nil => rfl
  | cons l lines ih =>
    have hline : Text.splitText '\n' l = [l] := by
      rw [Text.splitText, Text.splitAt_of_not_mem (h l List.mem_cons_self)]
      simp
    rw [splitLines, List.flatMap_cons, hline]
    exact congrArg (l :: ·) (ih fun k hk => h k (List.mem_cons_of_mem l hk))

theorem unified_of_hunks {before after : List String} (hb : splitLines before = before)
    (ha : splitLines after = after) (name : String) (hne : hunks before after ≠ []) :
    unified before after name = s!"--- a/{name}" :: s!"+++ b/{name}" ::
      (hunks before after).flatMap Hunk.lines := by
  rw [unified, hb, ha]
  split
  · next hnil => exact absurd hnil hne
  · rfl

/-- The unified diff of two texts is empty exactly if they are the same.  Otherwise, behind its
two header lines, it reads as a correct patch between them. -/
theorem unified_is_patch (before after : List String) (name : String)
    (hb : ∀ l ∈ before, '\n' ∉ l.toList) (ha : ∀ l ∈ after, '\n' ∉ l.toList) :
    (unified before after name = [] ↔ before = after) ∧
      (before ≠ after → ∃ body hs,
        unified before after name = s!"--- a/{name}" :: s!"+++ b/{name}" :: body ∧
          Patch.hunks? body = some hs ∧ IsPatch before after hs) := by
  have hb' := splitLines_eq_self hb
  have ha' := splitLines_eq_self ha
  have hwritten := unified_of_hunks hb' ha' name
  constructor
  · constructor
    · intro hempty
      by_contra hne
      rw [hwritten (mt (hunks_eq_nil_iff before after).mp hne)] at hempty
      cases hempty
    · intro heq
      rw [unified, hb', ha', (hunks_eq_nil_iff before after).mpr heq]
  · intro hne
    refine ⟨_, _, hwritten (mt (hunks_eq_nil_iff before after).mp hne), ?_,
      isPatch_hunks before after⟩
    rw [Patch.hunks?, Patch.hunksFrom?_lines]
    rfl

section Example

/-- Lines that begin like edits, like headers and like remarks. -/
def marked : List String := ["--- a/x", "-1", "+2", "", "\\ end", "@@ -1 +1 @@", "k", "l", "m"]

def remarked : List String :=
  ["+++ b/x", "-1", "+2", "", "\\ end", "@@ -1 +1 @@", "k", "l", "m", "-1", ""]

theorem patch_of_marked_lines :
    (∀ l ∈ marked, '\n' ∉ l.toList) ∧ (∀ l ∈ remarked, '\n' ∉ l.toList) ∧ marked ≠ remarked ∧
      ∃ body hs, unified marked remarked "x" = "--- a/x" :: "+++ b/x" :: body ∧
        Patch.hunks? body = some hs ∧ IsPatch marked remarked hs := by
  have hb : ∀ l ∈ marked, '\n' ∉ l.toList := by decide
  have ha : ∀ l ∈ remarked, '\n' ∉ l.toList := by decide
  have hne : marked ≠ remarked := by decide
  exact ⟨hb, ha, hne, (unified_is_patch marked remarked "x" hb ha).2 hne⟩

end Example

end Diff
end ApiSync
