import ApiSync.Proofs.Python.Layout
/-!
# Normalizing twice

Reading on from a line takes blanks away from its end and writes a tail behind what is left.  That
tail, read behind the same line, is written once more: its spaces stand where a space is due, so a
reader that passes over them finds them due again, and in front of a comma, a pipe or a closing
bracket they are taken away and put back.

A literal is copied, and it is found again with the same ends.  The only one that could be taken for
another is an empty one that a further quote follows, but blanks between two literals leave a space.
-/

namespace ApiSync
namespace Python

open Text

def isQuote (c : Char) : Bool := c = '"' || c = '\''

theorem StringLiteral.isQuote_quote (l : StringLiteral) : Python.isQuote l.quote = true := by
  rcases l.isQuote with h | h <;> rw [h] <;> rfl

/-! ## The space in front of a character -/

theorem needsSpace_of_pending {line : Line} {c : Char} (h : line.needsSpace c = true) :
    Line.needsSpace ⟨line.written, true⟩ c = true := by
  obtain ⟨written, pending⟩ := line
  cases pending with
  | true => exact h
  | false =>
    rw [needsSpace_of_not_pending rfl] at h
    cases h

theorem needsSpace_behind_space (written : List Char) (pending : Bool) (c : Char) :
    Line.needsSpace ⟨' ' :: written, pending⟩ c = false := by
  simp [Line.needsSpace]

/-- Behind a literal a blank leaves a space in front of the next one. -/
theorem needsSpace_between_quotes {q c : Char} (hq : isQuote q = true) (hc : isQuote c = true)
    (written : List Char) : Line.needsSpace ⟨q :: written, true⟩ c = true := by
  simp only [isQuote, Bool.or_eq_true, decide_eq_true_eq] at hq hc
  rcases hq with rfl | rfl <;> rcases hc with rfl | rfl <;>
    simp [Line.needsSpace, isOpeningBracket]

theorem put_congr {line line' : Line} {c : Char} (hwritten : line.written = line'.written)
    (hspace : line.needsSpace c = line'.needsSpace c) : line.put c = line'.put c := by
  rw [Line.put, Line.put, hwritten, hspace]

namespace Line

/-- Nothing but a single space is taken away from the end. -/
def IsTidy (line : Line) : Prop :=
  line.written = line.trimmed ∨ line.written = ' ' :: line.trimmed

/-- With `pending` for a blank passed over, no space is due that is not due on the line. -/
def Allows (line : Line) (pending : Bool) : Prop :=
  ∀ c, Line.needsSpace ⟨line.written, pending⟩ c = true → line.needsSpace c = true

theorem allows_pending (line : Line) : line.Allows line.pending := fun _ h => h

theorem allows_of_pending {line : Line} (h : line.pending = true) (pending : Bool) :
    line.Allows pending := by
  obtain ⟨written, due⟩ := line
  obtain rfl : due = true := h
  exact fun _ => needsSpace_of_pending

theorem trimmed_cons {c : Char} (h : isBlank c = false) (written : List Char) (pending : Bool) :
    Line.trimmed ⟨c :: written, pending⟩ = c :: written :=
  List.dropWhile_cons_of_neg (by rw [h]; exact Bool.false_ne_true)

theorem trimmed_space_cons {c : Char} (h : isBlank c = false) (written : List Char)
    (pending : Bool) : Line.trimmed ⟨' ' :: c :: written, pending⟩ = c :: written :=
  (List.dropWhile_cons_of_pos (by decide)).trans (trimmed_cons h written pending)

theorem isTidy_cons {c : Char} (h : isBlank c = false) (written : List Char) (pending : Bool) :
    Line.IsTidy ⟨c :: written, pending⟩ := Or.inl (trimmed_cons h written pending).symm

/-- What stands between the trimmed line and a character that is put behind it. -/
def gap (line : Line) (c : Char) : List Char :=
  if line.written = line.trimmed ∧ line.needsSpace c = false then [] else [' ']

theorem gap_cases (line : Line) (c : Char) : line.gap c = [] ∨ line.gap c = [' '] := by
  rw [gap]
  split
  · exact Or.inl rfl
  · exact Or.inr rfl

theorem reverse_gap (line : Line) (c : Char) : (line.gap c).reverse = line.gap c := by
  rcases line.gap_cases c with hgap | hgap <;> rw [hgap] <;> rfl

theorem of_head?_gap {line : Line} {c d : Char} {rest : List Char}
    (h : (line.gap c ++ c :: rest).head? = some d) : d = ' ' ∨ line.gap c = [] ∧ d = c := by
  rcases line.gap_cases c with hgap | hgap
  · rw [hgap] at h
    exact Or.inr ⟨hgap, (Option.some.inj h).symm⟩
  · rw [hgap] at h
    exact Or.inl (Option.some.inj h).symm

section

variable {line : Line} (h : line.IsTidy) (c : Char)
include h

theorem IsTidy.put_eq : line.put c = ⟨c :: (line.gap c ++ line.trimmed), false⟩ := by
  rw [Line.put, gap]
  rcases h with hwritten | hwritten
  · cases hspace : line.needsSpace c with
    | true =>
      rw [if_pos rfl, if_neg (by simp), ← hwritten]
      rfl
    | false => rw [if_neg Bool.false_ne_true, if_pos ⟨hwritten, rfl⟩, ← hwritten]; rfl
  · have hspace : line.needsSpace c = false := by
      obtain ⟨written, pending⟩ := line
      dsimp only at hwritten
      rw [hwritten]
      exact needsSpace_behind_space _ _ c
    have hne : ¬(line.written = line.trimmed ∧ line.needsSpace c = false) := by
      rintro ⟨hsame, -⟩
      rw [hwritten] at hsame
      exact List.cons_ne_self _ _ hsame
    rw [hspace, if_neg Bool.false_ne_true, if_neg (hspace ▸ hne), hwritten]
    rfl

/-- The gap is read to the same line, on which the character is written behind the same gap. -/
theorem IsTidy.read_gap {pending : Bool} (hallows : line.Allows pending) (rest : List Char) :
    ∃ again, Line.put ⟨line.written, again⟩ c = line.put c ∧
      normalizeFrom ⟨line.written, pending⟩ 0 false (line.gap c ++ rest) =
        normalizeFrom ⟨line.written, again⟩ 0 false rest := by
  by_cases hgap : line.written = line.trimmed ∧ line.needsSpace c = false
  · have hnone : Line.needsSpace ⟨line.written, pending⟩ c = false := by
      rw [Bool.eq_false_iff]
      intro hspace
      rw [hallows c hspace] at hgap
      cases hgap.2
    refine ⟨pending, put_congr rfl (hnone.trans hgap.2.symm), ?_⟩
    rw [gap, if_pos hgap]
    rfl
  · have hdue : Line.needsSpace ⟨line.written, true⟩ c = line.needsSpace c := by
      cases hspace : line.needsSpace c with
      | true => exact needsSpace_of_pending hspace
      | false =>
        have hend := h.resolve_left fun hwritten => hgap ⟨hwritten, hspace⟩
        rw [hend]
        exact needsSpace_behind_space _ _ c
    refine ⟨true, put_congr rfl hdue, ?_⟩
    rw [gap, if_neg hgap]
    exact normalizeFrom_blank _ rest (by decide)

/-- Without a gap a literal that stands behind another one stands there in the source. -/
theorem IsTidy.not_pending_of_gap (hc : isQuote c = true) (hgap : line.gap c = [])
    {q : Char} (hq : line.written.head? = some q) (hquote : isQuote q = true) :
    line.pending = false := by
  rw [gap] at hgap
  split at hgap
  · next hnone =>
    rw [Bool.eq_false_iff]
    intro hpending
    obtain ⟨written, pending⟩ := line
    obtain ⟨more, rfl⟩ := List.head?_eq_some_iff.mp hq
    dsimp only at hpending
    subst hpending
    rw [needsSpace_between_quotes hquote hc] at hnone
    cases hnone.2
  · cases hgap

end

end Line

/-! ## The tail that a text writes -/

/-- Behind the line, the text writes the tail, and so does the tail.  The tail begins with a literal
behind another one only where the text does. -/
structure Rewrites (line : Line) (text tail : List Char) : Prop where
  writes : (normalizeFrom line 0 false text).trimmed = tail.reverse ++ line.trimmed
  again : ∀ pending, line.Allows pending →
    (normalizeFrom ⟨line.written, pending⟩ 0 false tail).written =
      (normalizeFrom line 0 false text).written
  noBreak : tail.head? ≠ some '\n'
  quoted : ∀ q ∈ line.written.head?, isQuote q = true →
    ∀ c ∈ tail.head?, isQuote c = true → text.head? = some c ∧ line.pending = false

namespace Rewrites

variable {line : Line} {rest tail : List Char}

theorem nil (line : Line) : Rewrites line [] [] :=
  ⟨rfl, fun _ _ => rfl, nofun, nofun⟩

/-- A blank leaves a space due. -/
theorem blank {c : Char} (hread : normalizeFrom line 0 false (c :: rest) =
      normalizeFrom ⟨line.written, true⟩ 0 false rest)
    (h : Rewrites ⟨line.written, true⟩ rest tail) : Rewrites line (c :: rest) tail where
  writes := by
    rw [hread]
    exact h.writes
  again pending _ := by
    rw [hread]
    exact h.again pending (Line.allows_of_pending rfl pending)
  noBreak := h.noBreak
  quoted q hq hquote c hc hcquote := by
    have hpending := (h.quoted q hq hquote c hc hcquote).2
    cases hpending

/-- A comment writes nothing. -/
theorem comment {body : List Char} (hbody : '\n' ∉ body) (hend : ∀ c ∈ rest.head?, c = '\n')
    (h : Rewrites line rest tail) : Rewrites line ('#' :: (body ++ rest)) tail := by
  have hread := normalizeFrom_comment line rest hbody hend
  refine ⟨hread ▸ h.writes, hread ▸ h.again, h.noBreak, fun q hq hquote c hc hcquote => ?_⟩
  obtain rfl := hend c (h.quoted q hq hquote c hc hcquote).1
  cases hcquote

/-- A comma and a closing bracket take the blanks before them away. -/
theorem closeUp {c : Char} {due : Bool} (hblank : isBlank c = false) (hc : isQuote c = false)
    (hread : ∀ (line : Line) (rest : List Char), normalizeFrom line 0 false (c :: rest) =
      normalizeFrom ⟨c :: line.trimmed, due⟩ 0 false rest)
    (h : Rewrites ⟨c :: line.trimmed, due⟩ rest tail) :
    Rewrites line (c :: rest) (c :: tail) where
  writes := by
    rw [hread, h.writes, Line.trimmed_cons hblank, List.reverse_cons, List.append_assoc]
    rfl
  again pending _ := by
    rw [hread, hread]
    exact h.again due (Line.allows_pending _)
  noBreak hbreak := by
    rw [Option.some.inj hbreak] at hblank
    cases hblank
  quoted q hq hquote d hd hdquote := by
    rw [← Option.some.inj hd, hc] at hdquote
    cases hdquote

/-- A pipe does as well, and it brings the spaces around it along. -/
theorem pipe (h : Rewrites ⟨' ' :: '|' :: ' ' :: line.trimmed, false⟩ rest tail) :
    Rewrites line ('|' :: rest) (' ' :: '|' :: tail) where
  writes := by
    rw [normalizeFrom_pipe, h.writes, Line.trimmed_space_cons (by decide), List.reverse_cons,
      List.reverse_cons, List.append_assoc, List.append_assoc]
    rfl
  again pending _ := by
    rw [normalizeFrom_blank _ _ (by decide), normalizeFrom_pipe, normalizeFrom_pipe]
    exact h.again false (Line.allows_pending _)
  noBreak := by simp
  quoted q hq hquote d hd hdquote := by
    rw [← Option.some.inj hd] at hdquote
    cases hdquote

theorem normalizeFrom_other {c : Char} (hc : isPlain c = true ∨ c = '\\')
    (hbreak : c = '\\' → rest.head? ≠ some '\n') (line : Line) :
    normalizeFrom line 0 false (c :: rest) = normalizeFrom (line.put c) 0 false rest := by
  rcases hc with hplain | rfl
  · exact normalizeFrom_plain line rest hplain
  · have hblank : isBlank '\\' = false := by decide
    simp [normalizeFrom_code, hblank, hbreak rfl, isClosingBracket]

/-- Any other character comes behind the space that is due. -/
theorem other {c : Char} (hline : line.IsTidy) (hblank : isBlank c = false)
    (hquote : isQuote c = false) (hc : isPlain c = true ∨ c = '\\')
    (hbreak : c = '\\' → rest.head? ≠ some '\n') (h : Rewrites (line.put c) rest tail) :
    Rewrites line (c :: rest) (line.gap c ++ c :: tail) where
  writes := by
    rw [normalizeFrom_other hc hbreak, h.writes, hline.put_eq, Line.trimmed_cons hblank,
      List.reverse_append, List.reverse_cons, line.reverse_gap]
    simp
  again pending hallows := by
    obtain ⟨due, hput, hgap⟩ := hline.read_gap c hallows (c :: tail)
    rw [hgap, normalizeFrom_other hc (fun _ => h.noBreak), hput, normalizeFrom_other hc hbreak]
    exact h.again false (Line.allows_pending _)
  noBreak hhead := by
    rcases Line.of_head?_gap hhead with hspace | ⟨-, rfl⟩
    · cases hspace
    · cases hblank
  quoted q hq hqquote d hd hdquote := by
    rcases Line.of_head?_gap hd with rfl | ⟨-, rfl⟩
    · cases hdquote
    · rw [hquote] at hdquote
      cases hdquote

/-- A literal is copied behind the space that is due. -/
theorem literal {l : StringLiteral} (hline : line.IsTidy)
    (hread : literalLength l.quote (l.text ++ rest) = l.text.length)
    (h : Rewrites ⟨l.text.reverse ++ (line.gap l.quote ++ line.trimmed), false⟩ rest tail) :
    Rewrites line (l.text ++ rest) (line.gap l.quote ++ (l.text ++ tail)) := by
  obtain ⟨more, hfirst⟩ : ∃ more, l.text = l.quote :: more := ⟨_, l.text_eq_cons⟩
  obtain ⟨init, hlast⟩ : ∃ init, l.text = init ++ [l.quote] := ⟨_, l.text_eq_concat⟩
  have hcopied : more.reverse ++ (line.put l.quote).written =
      l.text.reverse ++ (line.gap l.quote ++ line.trimmed) := by
    rw [hline.put_eq, hfirst, List.reverse_cons, List.append_assoc]
    rfl
  have hwritten := normalizeFrom_literal l hread hfirst line
  rw [hcopied] at hwritten
  have hend : (l.text.reverse ++ (line.gap l.quote ++ line.trimmed)).head? = some l.quote := by
    rw [hlast, List.reverse_append]
    rfl
  refine ⟨?_, fun pending hallows => ?_, fun hbreak => ?_, fun q hq hquote c hc hcquote => ?_⟩
  · have hkept : Line.trimmed ⟨l.text.reverse ++ (line.gap l.quote ++ line.trimmed), false⟩ =
        l.text.reverse ++ (line.gap l.quote ++ line.trimmed) := by
      rw [hlast, List.reverse_append]
      exact Line.trimmed_cons (Lexeme.not_isBlank_quote l) _ _
    rw [hwritten, h.writes, hkept, List.reverse_append, List.reverse_append, line.reverse_gap,
      List.append_assoc, List.append_assoc]
  · -- The tail begins with a further quote only if the text behind the literal does.
    have hagain : literalLength l.quote (l.text ++ tail) = l.text.length := by
      rw [l.literalLength_text_iff] at hread ⊢
      intro htriple hbody htail
      exact hread htriple hbody
        (h.quoted _ hend l.isQuote_quote _ htail l.isQuote_quote).1
    obtain ⟨due, hput, hgap⟩ := hline.read_gap l.quote hallows (l.text ++ tail)
    rw [hgap, normalizeFrom_literal l hagain hfirst, hput, hcopied, hwritten]
    exact h.again false (Line.allows_pending _)
  · rw [hfirst] at hbreak
    rcases Line.of_head?_gap hbreak with hspace | ⟨-, hquote⟩
    · cases hspace
    · have hisQuote := l.isQuote_quote
      rw [← hquote] at hisQuote
      cases hisQuote
  · rw [hfirst] at hc ⊢
    rcases Line.of_head?_gap hc with rfl | ⟨hgap, rfl⟩
    · cases hcquote
    · exact ⟨rfl, hline.not_pending_of_gap l.quote l.isQuote_quote hgap hq hquote⟩

end Rewrites

/-- The ways in which a character outside of literals and comments is read. -/
theorem code_cases {c : Char} (hc : c ∉ ['"', '\'', '#']) (rest : List Char) :
    (isBlank c = true ∨ c = '\\' ∧ rest.head? = some '\n') ∨ c = ',' ∨ c = '|' ∨
      isClosingBracket c = true ∨
      isBlank c = false ∧ (isPlain c = true ∨ c = '\\') ∧ (c = '\\' → rest.head? ≠ some '\n') := by
  simp only [List.mem_cons, List.not_mem_nil, or_false, not_or] at hc
  by_cases hskip : isBlank c = true ∨ c = '\\' ∧ rest.head? = some '\n'
  · exact Or.inl hskip
  refine Or.inr (or_iff_not_imp_left.mpr fun hcomma => or_iff_not_imp_left.mpr fun hpipe =>
    or_iff_not_imp_left.mpr fun hclosing => ?_)
  obtain ⟨hblank, hbreak⟩ := not_or.mp hskip
  rw [Bool.not_eq_true] at hblank
  refine ⟨hblank, ?_, fun hslash hhead => hbreak ⟨hslash, hhead⟩⟩
  by_cases hslash : c = '\\'
  · exact Or.inr hslash
  · refine Or.inl ?_
    simp [isPlain, hblank, hclosing, hc, hslash, hcomma, hpipe]

theorem exists_rewrites_code {c : Char} {rest : List Char} (hc : c ∉ ['"', '\'', '#'])
    (hrest : ∀ {line : Line}, line.IsTidy → ∃ tail, Rewrites line rest tail) {line : Line}
    (hline : line.IsTidy) : ∃ tail, Rewrites line (c :: rest) tail := by
  have hquote : isQuote c = false := by
    simp only [List.mem_cons, List.not_mem_nil, or_false, not_or] at hc
    simp [isQuote, hc]
  rcases code_cases hc rest with hskip | rfl | rfl | hclosing | ⟨hblank, hother, hbreak⟩
  · have hread : normalizeFrom line 0 false (c :: rest) =
        normalizeFrom ⟨line.written, true⟩ 0 false rest := by
      simp only [List.mem_cons, List.not_mem_nil, or_false, not_or] at hc
      rw [normalizeFrom_code, if_neg (by simp [hc]), if_neg hc.2.2, if_pos (by simpa using hskip)]
    have htidy : Line.IsTidy ⟨line.written, true⟩ := hline
    obtain ⟨tail, htail⟩ := hrest htidy
    exact ⟨tail, htail.blank hread⟩
  · have hblank : isBlank ',' = false := by decide
    obtain ⟨tail, htail⟩ := hrest (Line.isTidy_cons hblank line.trimmed true)
    exact ⟨_, htail.closeUp hblank hquote normalizeFrom_comma⟩
  · have htidy : Line.IsTidy ⟨' ' :: '|' :: ' ' :: line.trimmed, false⟩ :=
      Or.inr (congrArg _ (Line.trimmed_space_cons (by decide) _ _).symm)
    obtain ⟨tail, htail⟩ := hrest htidy
    exact ⟨_, htail.pipe⟩
  · have hblank := not_isBlank_of_isClosingBracket hclosing
    obtain ⟨tail, htail⟩ := hrest (Line.isTidy_cons hblank line.trimmed false)
    exact ⟨_, htail.closeUp hblank hquote fun line rest => normalizeFrom_closing line rest hclosing⟩
  · have htidy : (line.put c).IsTidy := by
      rw [hline.put_eq]
      exact Line.isTidy_cons hblank _ _
    obtain ⟨tail, htail⟩ := hrest htidy
    exact ⟨_, htail.other hline hblank hquote hother hbreak⟩

/-- Behind every tidy line a text with closed literals writes some tail. -/
theorem Closed.exists_rewrites {text : List Char} (h : Closed text) {line : Line}
    (hline : line.IsTidy) : ∃ tail, Rewrites line text tail := by
  induction h generalizing line with
  | nil => exact ⟨[], .nil line⟩
  | @literal l rest hread _ ih =>
    obtain ⟨init, hlast⟩ : ∃ init, l.text = init ++ [l.quote] := ⟨_, l.text_eq_concat⟩
    have htidy : Line.IsTidy ⟨l.text.reverse ++ (line.gap l.quote ++ line.trimmed), false⟩ := by
      rw [hlast, List.reverse_append]
      exact Line.isTidy_cons (Lexeme.not_isBlank_quote l) _ _
    obtain ⟨tail, htail⟩ := ih htidy
    exact ⟨_, htail.literal hline hread⟩
  | comment hbody hend _ ih =>
    obtain ⟨tail, htail⟩ := ih hline
    exact ⟨tail, htail.comment hbody hend⟩
  | code hc _ ih => exact exists_rewrites_code hc ih hline

/-! ## The whole text -/

/-- On an empty line no space is due. -/
theorem normalizeFrom_first (pending : Bool) (text : List Char) :
    (normalizeFrom ⟨[], pending⟩ 0 false text).written =
      (normalizeFrom ⟨[], false⟩ 0 false text).written := by
  have hboth (comment : Bool) : (normalizeFrom ⟨[], pending⟩ 0 comment text).written =
      (normalizeFrom ⟨[], false⟩ 0 comment text).written := by
    induction text generalizing comment with
    | nil => rfl
    | cons c text ih =>
      rw [normalizeFrom, normalizeFrom, if_neg (Nat.lt_irrefl 0), if_neg (Nat.lt_irrefl 0)]
      by_cases hcomment : (comment && decide (c ≠ '\n')) = true
      · rw [if_pos hcomment, if_pos hcomment]
        exact ih true
      · rw [if_neg hcomment, if_neg hcomment]
        by_cases hhash : c = '#'
        · subst hhash
          exact ih true
        · -- every other character is written as on a line where no space is due
          rw [if_neg hhash, if_neg hhash]
          rfl
  exact hboth false

theorem normalize_blanks_append {blanks : List Char} (h : ∀ c ∈ blanks, isBlank c = true)
    (text : List Char) : normalize (blanks ++ text) = normalize text := by
  have hread (pending : Bool) : (normalizeFrom ⟨[], pending⟩ 0 false (blanks ++ text)).written =
      (normalizeFrom ⟨[], false⟩ 0 false text).written := by
    induction blanks generalizing pending with
    | nil => exact normalizeFrom_first pending text
    | cons c blanks ih =>
      obtain ⟨hc, hblanks⟩ := List.forall_mem_cons.mp h
      rw [List.cons_append, normalizeFrom_blank _ _ hc]
      exact ih hblanks true
  rw [normalize, normalize, hread]

theorem not_isBlank_of_trimmed {line : Line} {c : Char} (h : line.trimmed.head? = some c) :
    isBlank c = false := by
  have hkept := List.head?_dropWhile_not isBlank line.written
  rw [Line.trimmed] at h
  rw [h] at hkept
  simpa using hkept

/-- An expression on one line is its own expression on one line, if the literals of the text that it
comes from are closed. -/
theorem normalize_idempotent {text : List Char} (h : closesLiterals 0 false text = true) :
    normalize (normalize text) = normalize text := by
  have hempty : Line.IsTidy ⟨[], false⟩ := Or.inl rfl
  obtain ⟨tail, htail⟩ := (closed_of_closesLiterals h).exists_rewrites hempty
  have hreverse : tail.reverse = (normalizeFrom ⟨[], false⟩ 0 false text).trimmed := by
    rw [htail.writes]
    exact (List.append_nil _).symm
  have hline : normalize text = trim tail := by
    rw [normalize, trim_reverse, ← List.reverse_reverse tail, hreverse]
    rfl
  have hagain : normalize tail = normalize text := by
    rw [normalize, htail.again false (Line.allows_pending _), normalize]
  obtain ⟨lead, hlead, heq⟩ := exists_append_trim fun c hc => by
    rw [← List.head?_reverse, hreverse] at hc
    exact not_isBlank_of_trimmed hc
  calc normalize (normalize text) = normalize (trim tail) := by rw [hline]
    _ = normalize (lead ++ trim tail) := (normalize_blanks_append hlead _).symm
    _ = normalize tail := by rw [← heq]
    _ = normalize text := hagain

theorem normalize_idempotent_literals :
    let text := "Literal[ ''  'it\\'s' ,\n  \"a # b\"|None ]  # done".toList
    closesLiterals 0 false text = true ∧
      normalize text = "Literal['' 'it\\'s', \"a # b\" | None]".toList ∧
      normalize (normalize text) = normalize text := by
  intro text
  have hclosed : closesLiterals 0 false text = true := by decide +kernel
  exact ⟨hclosed, by decide +kernel, normalize_idempotent hclosed⟩

/-- A literal that is open at the end of its line is closed by a quote of the next one, once both
are one line. -/
example : closesLiterals 0 false "'a\n'b|c'".toList = false ∧
    normalize "'a\n'b|c'".toList = "'a 'b|c'".toList ∧
    normalize "'a 'b|c'".toList = "'a 'b | c'".toList := by decide +kernel

end Python
end ApiSync
