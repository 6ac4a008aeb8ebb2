import ApiSync.Annotation
import ApiSync.Proofs.Text
/-!
# Brackets and the members between commas

The annotations count brackets of one kind at a time.  A text is balanced in a kind if it opens
what it closes and closes what it opens; such a text can be read at any depth, and the reading
goes on behind it as if it were not there.  So members that are balanced and hold no comma at the
top are the members that a list of them is split into.
-/

namespace ApiSync
namespace Annotation

open Text

/-- One kind of brackets. -/
structure Brackets where
  opening : Char
  closing : Char
  distinct : opening ≠ closing

def square : Brackets := ⟨'[', ']', by decide⟩

def round : Brackets := ⟨'(', ')', by decide⟩

namespace Brackets

/-- The depth at the end of a text that starts at some depth, if the text closes no bracket that
is not open. -/
def depthAfter? (p : Brackets) : Nat → List Char → Option Nat
  | depth, [] => some depth
  | depth, c :: cs =>
    if c = p.opening then p.depthAfter? (depth + 1) cs
    else if c = p.closing then if depth = 0 then none else p.depthAfter? (depth - 1) cs
    else p.depthAfter? depth cs

/-- The text opens what it closes and closes what it opens. -/
def Balanced (p : Brackets) (text : List Char) : Prop := p.depthAfter? 0 text = some 0

instance (p : Brackets) (text : List Char) : Decidable (p.Balanced text) :=
  inferInstanceAs (Decidable (_ = _))

variable {p : Brackets}

theorem depthAfter?_opening (p : Brackets) (depth : Nat) (cs : List Char) :
    p.depthAfter? depth (p.opening :: cs) = p.depthAfter? (depth + 1) cs := by
  rw [depthAfter?, if_pos rfl]

theorem depthAfter?_closing_zero (p : Brackets) (cs : List Char) :
    p.depthAfter? 0 (p.closing :: cs) = none := by
  rw [depthAfter?, if_neg p.distinct.symm, if_pos rfl, if_pos rfl]

theorem depthAfter?_closing_succ (p : Brackets) (depth : Nat) (cs : List Char) :
    p.depthAfter? (depth + 1) (p.closing :: cs) = p.depthAfter? depth cs := by
  rw [depthAfter?, if_neg p.distinct.symm, if_pos rfl, if_neg (Nat.succ_ne_zero depth),
    Nat.add_sub_cancel]

theorem depthAfter?_plain {c : Char} (ho : c ≠ p.opening) (hc : c ≠ p.closing) (depth : Nat)
    (cs : List Char) : p.depthAfter? depth (c :: cs) = p.depthAfter? depth cs := by
  rw [depthAfter?, if_neg ho, if_neg hc]

/-- The depth behind one character. -/
def step? (p : Brackets) (depth : Nat) (c : Char) : Option Nat :=
  if c = p.opening then some (depth + 1)
  else if c = p.closing then if depth = 0 then none else some (depth - 1)
  else some depth

theorem depthAfter?_cons (p : Brackets) (depth : Nat) (c : Char) (cs : List Char) :
    p.depthAfter? depth (c :: cs) = (p.step? depth c).bind fun d => p.depthAfter? d cs := by
  rw [depthAfter?, step?]
  split
  · rfl
  · split
    · split <;> rfl
    · rfl

theorem depthAfter?_append (p : Brackets) (depth : Nat) (a b : List Char) :
    p.depthAfter? depth (a ++ b) = (p.depthAfter? depth a).bind fun d => p.depthAfter? d b := by
  induction a generalizing depth with
  | nil => rfl
  | cons c a ih =>
    rw [List.cons_append, depthAfter?_cons, depthAfter?_cons, Option.bind_assoc]
    simp only [ih]

theorem Balanced.append {a b : List Char} (ha : p.Balanced a) (hb : p.Balanced b) :
    p.Balanced (a ++ b) := by
  rw [Balanced, depthAfter?_append, ha]
  exact hb

/-- A text without closing brackets gets no shallower. -/
theorem le_of_depthAfter? {depth final : Nat} {cs : List Char}
    (h : p.depthAfter? depth cs = some final) (hn : p.closing ∉ cs) : depth ≤ final := by
  induction cs generalizing depth with
  | nil =>
    have heq : depth = final := by simpa [Brackets.depthAfter?] using h
    omega
  | cons c cs ih =>
    have hc : c ≠ p.closing := fun he => hn (he ▸ List.mem_cons_self)
    have hcs : p.closing ∉ cs := fun hm => hn (List.mem_cons_of_mem c hm)
    by_cases ho : c = p.opening
    · rw [ho, depthAfter?_opening] at h
      have := ih h hcs
      omega
    · rw [depthAfter?_plain ho hc] at h
      exact ih h hcs

/-- Behind each opening bracket a closing one follows. -/
def Closes (p : Brackets) : List Char → Prop
  | [] => True
  | c :: cs => (c = p.opening → p.closing ∈ cs) ∧ p.Closes cs

theorem closes_of_depthAfter? {depth : Nat} {text : List Char}
    (h : p.depthAfter? depth text = some 0) : p.Closes text := by
  induction text generalizing depth with
  | nil => trivial
  | cons c cs ih =>
    by_cases ho : c = p.opening
    · rw [ho, depthAfter?_opening] at h
      refine ⟨fun _ => ?_, ih h⟩
      by_contra hnone
      have := le_of_depthAfter? h hnone
      omega
    · refine ⟨fun hc => absurd hc ho, ?_⟩
      by_cases hc : c = p.closing
      · rw [hc] at h
        cases depth with
        | zero =>
          rw [depthAfter?_closing_zero] at h
          cases h
        | succ depth =>
          rw [depthAfter?_closing_succ] at h
          exact ih h
      · rw [depthAfter?_plain ho hc] at h
        exact ih h

theorem Balanced.closes {text : List Char} (h : p.Balanced text) : p.Closes text :=
  closes_of_depthAfter? h

theorem closes_of_append {a b : List Char} (h : p.Closes (a ++ b)) : p.Closes b := by
  induction a with
  | nil => exact h
  | cons c a ih => exact ih h.2

/-- Characters that are no brackets of the kind can be left out. -/
theorem depthAfter?_filter {keep : Char → Bool} (ho : keep p.opening = true)
    (hc : keep p.closing = true) (depth : Nat) (cs : List Char) :
    p.depthAfter? depth (cs.filter keep) = p.depthAfter? depth cs := by
  induction cs generalizing depth with
  | nil => rfl
  | cons c cs ih =>
    by_cases hkeep : keep c = true
    · rw [List.filter_cons_of_pos hkeep, depthAfter?_cons, depthAfter?_cons]
      simp only [ih]
    · have hco : c ≠ p.opening := fun he => hkeep (he ▸ ho)
      have hcc : c ≠ p.closing := fun he => hkeep (he ▸ hc)
      rw [List.filter_cons_of_neg hkeep, depthAfter?_plain hco hcc]
      exact ih _

theorem Balanced.of_filter {keep : Char → Bool} (ho : keep p.opening = true)
    (hc : keep p.closing = true) {a b : List Char} (h : a.filter keep = b.filter keep)
    (hb : p.Balanced b) : p.Balanced a := by
  rw [Balanced, ← depthAfter?_filter ho hc, h, depthAfter?_filter ho hc]
  exact hb

end Brackets

/-! ## Marks outside square brackets -/

/-- The depth in square brackets after a character. -/
def squareStep (depth : Nat) (c : Char) : Nat :=
  if c = '[' then depth + 1 else if c = ']' then depth - 1 else depth

/-- Whether the mark stands outside square brackets, for a text that starts at some depth. -/
def hasTop (mark : Char) : Nat → List Char → Bool
  | _, [] => false
  | depth, c :: cs =>
    (c = mark && squareStep depth c = 0) || hasTop mark (squareStep depth c) cs

theorem depthAfter?_square {depth final : Nat} {c : Char} {cs : List Char}
    (h : square.depthAfter? depth (c :: cs) = some final) :
    square.depthAfter? (squareStep depth c) cs = some final ∧
      ((squareStep depth c : Nat) : Int) =
        if c = '[' then (depth : Int) + 1 else if c = ']' then (depth : Int) - 1 else depth := by
  unfold squareStep
  by_cases ho : c = '['
  · rw [ho] at h ⊢
    have hnext := square.depthAfter?_opening depth cs
    exact ⟨hnext ▸ h, rfl⟩
  · by_cases hc : c = ']'
    · rw [hc] at h ⊢
      cases depth with
      | zero =>
        have hstop := square.depthAfter?_closing_zero cs
        rw [show square.closing = ']' from rfl] at hstop
        rw [hstop] at h
        cases h
      | succ depth =>
        have hnext := square.depthAfter?_closing_succ depth cs
        refine ⟨hnext ▸ h, ?_⟩
        simp
    · rw [if_neg ho, if_neg ho, if_neg hc, if_neg hc]
      rw [Brackets.depthAfter?_plain ho hc] at h
      exact ⟨h, rfl⟩

theorem hasTop_append {mark : Char} {depth middle : Nat} {a : List Char}
    (h : square.depthAfter? depth a = some middle) (b : List Char) :
    hasTop mark depth (a ++ b) = (hasTop mark depth a || hasTop mark middle b) := by
  induction a generalizing depth with
  | nil =>
    have heq : depth = middle := by simpa [Brackets.depthAfter?] using h
    rw [heq]
    rfl
  | cons c a ih =>
    rw [List.cons_append, hasTop, hasTop, ih (depthAfter?_square h).1, Bool.or_assoc]

/-- Characters other than the mark and the brackets can be left out. -/
theorem hasTop_filter {mark : Char} {keep : Char → Bool} (hm : keep mark = true)
    (ho : keep '[' = true) (hc : keep ']' = true) (depth : Nat) (cs : List Char) :
    hasTop mark depth (cs.filter keep) = hasTop mark depth cs := by
  induction cs generalizing depth with
  | nil => rfl
  | cons c cs ih =>
    by_cases hkeep : keep c = true
    · rw [List.filter_cons_of_pos hkeep, hasTop, hasTop, ih]
    · have hcm : c ≠ mark := fun he => hkeep (he ▸ hm)
      have hco : c ≠ '[' := fun he => hkeep (he ▸ ho)
      have hcc : c ≠ ']' := fun he => hkeep (he ▸ hc)
      have hstep : squareStep depth c = depth := by
        rw [squareStep, if_neg hco, if_neg hcc]
      rw [List.filter_cons_of_neg hkeep, hasTop, hstep, decide_eq_false hcm, ih]
      rfl

/-- One bracket more around a text is one level more everywhere in it. -/
theorem squareStep_succ {depth final : Nat} {c : Char} {cs : List Char}
    (h : square.depthAfter? depth (c :: cs) = some final) :
    squareStep (depth + 1) c = squareStep depth c + 1 := by
  have hcast := (depthAfter?_square h).2
  unfold squareStep at hcast ⊢
  by_cases ho : c = '['
  · rw [if_pos ho, if_pos ho]
  · rw [if_neg ho, if_neg ho] at hcast ⊢
    by_cases hc : c = ']'
    · rw [if_pos hc, if_pos hc] at hcast ⊢
      omega
    · rw [if_neg hc, if_neg hc]

theorem depthAfter?_succ {depth final : Nat} {cs : List Char}
    (h : square.depthAfter? depth cs = some final) :
    square.depthAfter? (depth + 1) cs = some (final + 1) := by
  induction cs generalizing depth with
  | nil =>
    have heq : depth = final := by simpa [Brackets.depthAfter?] using h
    rw [heq]
    rfl
  | cons c cs ih =>
    have hnext := ih (depthAfter?_square h).1
    rw [← squareStep_succ h] at hnext
    by_cases ho : c = '['
    · rw [ho] at hnext ⊢
      exact (square.depthAfter?_opening (depth + 1) cs).trans hnext
    · by_cases hc : c = ']'
      · rw [hc] at hnext ⊢
        exact (square.depthAfter?_closing_succ depth cs).trans hnext
      · rw [squareStep, if_neg ho, if_neg hc] at hnext
        exact (Brackets.depthAfter?_plain ho hc (depth + 1) cs).trans hnext

/-- Inside a bracket no part of a balanced text is at the top. -/
theorem hasTop_succ (mark : Char) {depth final : Nat} {cs : List Char}
    (h : square.depthAfter? depth cs = some final) : hasTop mark (depth + 1) cs = false := by
  induction cs generalizing depth with
  | nil => rfl
  | cons c cs ih =>
    rw [hasTop, squareStep_succ h, ih (depthAfter?_square h).1,
      decide_eq_false (Nat.succ_ne_zero _), Bool.and_false, Bool.or_false]

theorem hasTop_of_not_mem {mark : Char} {cs : List Char} (h : mark ∉ cs) (depth : Nat) :
    hasTop mark depth cs = false := by
  induction cs generalizing depth with
  | nil => rfl
  | cons c cs ih =>
    have hc : c ≠ mark := fun he => h (he ▸ List.mem_cons_self)
    rw [hasTop, decide_eq_false hc, ih fun hm => h (List.mem_cons_of_mem c hm)]
    rfl

theorem Brackets.depthAfter?_of_not_mem {p : Brackets} {cs : List Char} (ho : p.opening ∉ cs)
    (hc : p.closing ∉ cs) (depth : Nat) : p.depthAfter? depth cs = some depth := by
  induction cs with
  | nil => rfl
  | cons c cs ih =>
    have hco : c ≠ p.opening := fun he => ho (he ▸ List.mem_cons_self)
    have hcc : c ≠ p.closing := fun he => hc (he ▸ List.mem_cons_self)
    rw [Brackets.depthAfter?_plain hco hcc]
    exact ih (fun hm => ho (List.mem_cons_of_mem c hm)) fun hm => hc (List.mem_cons_of_mem c hm)

/-! ## Splitting at the commas -/

/-- A text without a comma at the top is read into the current member. -/
theorem splitMembers_append {depth final : Nat} {text : List Char}
    (h : square.depthAfter? depth text = some final) (hn : hasTop ',' depth text = false)
    (current rest : List Char) :
    splitMembers depth current (text ++ rest) = splitMembers final (current ++ text) rest := by
  induction text generalizing depth current with
  | nil =>
    have heq : depth = final := by simpa [Brackets.depthAfter?] using h
    rw [heq, List.append_nil]
    rfl
  | cons c text ih =>
    obtain ⟨hnext, hcast⟩ := depthAfter?_square h
    rw [hasTop, Bool.or_eq_false_iff] at hn
    have hcomma : ¬(c = ',' ∧ ((squareStep depth c : Nat) : Int) = 0) := by
      intro hc
      have hzero : squareStep depth c = 0 := by omega
      rw [hc.1] at hn hzero
      rw [hzero] at hn
      exact absurd hn.1 (by decide)
    rw [List.cons_append, splitMembers, ← hcast, if_neg hcomma, ih hnext hn.2,
      List.append_assoc]
    rfl

theorem splitMembers_comma (current cs : List Char) :
    splitMembers 0 current (',' :: cs) = current :: splitMembers 0 [] cs := by
  rw [splitMembers]
  simp only [Char.reduceEq, if_false, and_self, if_true]

theorem splitMembers_space (current cs : List Char) :
    splitMembers 0 current (' ' :: cs) = splitMembers 0 (current ++ [' ']) cs := by
  rw [splitMembers]
  simp only [Char.reduceEq, if_false, false_and]

theorem closing?_append {depth final : Nat} {text : List Char}
    (h : square.depthAfter? depth text = some final) (rest : List Char) :
    closing? depth (text ++ rest) =
      (closing? final rest).map fun (inside, after) => (text ++ inside, after) := by
  induction text generalizing depth with
  | nil =>
    have heq : depth = final := by simpa [Brackets.depthAfter?] using h
    rw [heq, List.nil_append]
    cases closing? final rest <;> rfl
  | cons c text ih =>
    -- A bracket that closed the ones before would leave the text without a depth.
    have hopen : ¬(c = ']' ∧ depth = 0) := by
      rintro ⟨hc, hz⟩
      have hstop := square.depthAfter?_closing_zero text
      rw [show square.closing = ']' from rfl, ← hc, ← hz, h] at hstop
      cases hstop
    have hnext := (depthAfter?_square h).1
    rw [List.cons_append, closing?, if_neg hopen]
    dsimp only
    rw [show (if c = '[' then depth + 1 else if c = ']' then depth - 1 else depth) =
      squareStep depth c from rfl, ih hnext, Option.map_map]
    rfl

/-- Behind a balanced text the bracket that closes is the next one. -/
theorem closing?_of_balanced {text : List Char} (h : square.Balanced text)
    (after : List Char) : closing? 0 (text ++ ']' :: after) = some (text, after) := by
  rw [closing?_append h, closing?, if_pos ⟨rfl, rfl⟩]
  simp

/-- A member of a list of members: balanced, without a comma at the top. -/
structure IsMember (m : List Char) : Prop where
  balanced : square.Balanced m
  single : hasTop ',' 0 m = false

/-- A word and a balanced text in brackets behind it. -/
theorem isMember_subscript (head : List Char) {inner : List Char} (ho : '[' ∉ head)
    (hc : ']' ∉ head) (hcomma : ',' ∉ head) (h : square.Balanced inner) :
    IsMember (head ++ '[' :: (inner ++ [']'])) := by
  have hhead : square.depthAfter? 0 head = some 0 := Brackets.depthAfter?_of_not_mem ho hc 0
  have hinner : square.depthAfter? 1 inner = some 1 := depthAfter?_succ h
  constructor
  · have hopen : square.depthAfter? 0 ('[' :: (inner ++ [']'])) =
        square.depthAfter? 1 (inner ++ [']']) := square.depthAfter?_opening 0 _
    rw [Brackets.Balanced, Brackets.depthAfter?_append, hhead, Option.bind_some, hopen,
      Brackets.depthAfter?_append, hinner]
    rfl
  · rw [hasTop_append hhead, hasTop_of_not_mem hcomma, Bool.false_or]
    show hasTop ',' 1 (inner ++ [']']) = false
    rw [hasTop_append hinner, hasTop_succ ',' h]
    rfl

theorem isMember_of_not_mem {m : List Char} (ho : '[' ∉ m) (hc : ']' ∉ m) (hcomma : ',' ∉ m) :
    IsMember m :=
  ⟨Brackets.depthAfter?_of_not_mem ho hc 0, hasTop_of_not_mem hcomma 0⟩

/-- The last member of a list of members; brackets may be left open in it. -/
def IsLastMember (m : List Char) : Prop :=
  (∃ depth, square.depthAfter? 0 m = some depth) ∧ hasTop ',' 0 m = false

theorem IsMember.last {m : List Char} (h : IsMember m) : IsLastMember m :=
  ⟨⟨0, h.balanced⟩, h.single⟩

theorem unionOf_eq (ms : List (List Char)) :
    unionOf ms = "Union[".toList ++ (commaJoin ms ++ [']']) := List.append_assoc _ _ _

theorem commaJoin_cons (m : List Char) {ms : List (List Char)} (h : ms ≠ []) :
    commaJoin (m :: ms) = m ++ ',' :: ' ' :: commaJoin ms := by
  cases ms with
  | nil => exact absurd rfl h
  | cons n ms =>
    show m ++ [',', ' '] ++ commaJoin (n :: ms) = _
    rw [List.append_assoc]
    rfl

theorem balanced_commaJoin {p : Brackets} (hp : p.Balanced [',', ' '])
    {ms : List (List Char)} (h : ∀ m ∈ ms, p.Balanced m) : p.Balanced (commaJoin ms) := by
  induction ms with
  | nil => rfl
  | cons m ms ih =>
    have hm := h m List.mem_cons_self
    have hms := ih fun n hn => h n (List.mem_cons_of_mem m hn)
    by_cases hnil : ms = []
    · rw [hnil]
      exact hm
    · rw [commaJoin_cons m hnil]
      exact hm.append (hp.append hms)

/-- Splitting a list of members gives the members, blanks at their ends aside. -/
theorem splitMembers_commaJoin {ms : List (List Char)} (h : ∀ m ∈ ms, IsMember m)
    {last : List Char} (hl : IsLastMember last) {lead : List Char}
    (hlead : ∀ c ∈ lead, isBlank c = true) :
    (splitMembers 0 lead (commaJoin (ms ++ [last]))).map trim = (ms ++ [last]).map trim := by
  induction ms generalizing lead with
  | nil =>
    obtain ⟨depth, hdepth⟩ := hl.1
    have hsplit := splitMembers_append hdepth hl.2 lead []
    rw [List.append_nil] at hsplit
    show (splitMembers ((0 : Nat) : Int) lead last).map trim = [trim last]
    rw [hsplit, splitMembers, List.map_singleton, trim_append_left hlead]
  | cons m ms ih =>
    have hm := h m List.mem_cons_self
    have hspace : ∀ c ∈ [' '], isBlank c = true := List.forall_mem_singleton.mpr (by decide)
    have hrest := ih (fun n hn => h n (List.mem_cons_of_mem m hn)) hspace
    rw [List.cons_append, commaJoin_cons m (by simp)]
    show (splitMembers ((0 : Nat) : Int) lead _).map trim = _
    rw [splitMembers_append hm.balanced hm.single]
    show (splitMembers 0 (lead ++ m) _).map trim = _
    rw [splitMembers_comma, splitMembers_space, List.map_cons, List.map_cons,
      trim_append_left hlead]
    exact congrArg (trim m :: ·) hrest

/-- The members without the blanks at their ends and without blank members. -/
def tidy (ms : List (List Char)) : List (List Char) := (ms.map trim).filter (· ≠ [])

theorem tidy_cons_of_blank {m : List Char} (h : trim m = []) (ms : List (List Char)) :
    tidy (m :: ms) = tidy ms := by simp [tidy, h]

theorem tidy_cons {m : List Char} (h : trim m ≠ []) (ms : List (List Char)) :
    tidy (m :: ms) = trim m :: tidy ms := by simp [tidy, h]

theorem tidy_eq_self {ms : List (List Char)} (htrim : ∀ m ∈ ms, trim m = m)
    (hne : ∀ m ∈ ms, m ≠ []) : tidy ms = ms := by
  rw [tidy, List.map_congr_left htrim, List.map_id', List.filter_eq_self]
  exact fun m hm => by simpa using hne m hm

theorem members_commaJoin {ms : List (List Char)} (h : ∀ m ∈ ms, IsMember m)
    {last : List Char} (hl : IsLastMember last) :
    members (commaJoin (ms ++ [last])) = tidy (ms ++ [last]) := by
  rw [members, tidy, splitMembers_commaJoin h hl (fun _ hc => absurd hc List.not_mem_nil)]

/-- A list of members is split into its members. -/
theorem members_of_members {ms : List (List Char)} (h : ∀ m ∈ ms, IsMember m) :
    members (commaJoin ms) = tidy ms := by
  induction ms using List.reverseRecOn with
  | nil => rfl
  | append_singleton ms last _ =>
    have hlast := h last (List.mem_append_right ms List.mem_cons_self)
    exact members_commaJoin (fun m hm => h m (List.mem_append_left [last] hm)) hlast.last

theorem all_commaJoin {p : Char → Bool} (hcomma : p ',' = true) (hspace : p ' ' = true)
    {ms : List (List Char)} (h : ∀ m ∈ ms, m.all p = true) : (commaJoin ms).all p = true := by
  induction ms with
  | nil => rfl
  | cons m ms ih =>
    have hm := h m List.mem_cons_self
    have hms := ih fun n hn => h n (List.mem_cons_of_mem m hn)
    by_cases hnil : ms = []
    · rw [hnil]
      exact hm
    · rw [commaJoin_cons m hnil, List.all_append, List.all_cons, List.all_cons, hm, hcomma, hspace,
        hms]
      rfl

end Annotation
end ApiSync
