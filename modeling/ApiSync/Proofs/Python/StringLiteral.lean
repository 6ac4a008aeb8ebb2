import Mathlib.Data.List.TakeWhile
import ApiSync.Python.Normal
/-!
# String literals

A string literal stands between two delimiters of one or three quotes of a kind.  Inside, a
backslash takes the next character along, and every other character stands for itself; with one
quote as delimiter there is no line break and no quote, and with three there are never more than
two quotes together, and none at the end.  A reader that knows the quote finds the end of the
literal, whatever follows, as long as no further quote does.

In any other text the reader stops at the end of the text or, with one quote as delimiter, at the
end of the line.  Where each literal that a scan meets is closed, the text is made of literals,
comments and other characters.
-/

namespace ApiSync
namespace Python

open Text

def delimiterOf (quote : Char) (triple : Bool) : List Char :=
  List.replicate (if triple then 3 else 1) quote

/-- How many quotes may stand together inside a literal. -/
def quotesInside (triple : Bool) : Nat := if triple then 2 else 0

/-- What may stand between the delimiters, read from left to right: some quotes, and behind them
another character or a backslash with the one it takes along. -/
inductive IsBody (quote : Char) (triple : Bool) : List Char → Prop
  | nil : IsBody quote triple []
  | char {quotes : Nat} {c : Char} {rest : List Char} (hquotes : quotes ≤ quotesInside triple)
      (hquote : c ≠ quote) (hslash : c ≠ '\\') (hbreak : c = '\n' → triple = true)
      (hrest : IsBody quote triple rest) :
      IsBody quote triple (List.replicate quotes quote ++ c :: rest)
  | escaped {quotes : Nat} {c : Char} {rest : List Char} (hquotes : quotes ≤ quotesInside triple)
      (hrest : IsBody quote triple rest) :
      IsBody quote triple (List.replicate quotes quote ++ '\\' :: c :: rest)

structure StringLiteral where
  quote : Char
  triple : Bool
  body : List Char
  isQuote : quote = '"' ∨ quote = '\''
  isBody : IsBody quote triple body

namespace StringLiteral

def delimiter (l : StringLiteral) : List Char := delimiterOf l.quote l.triple

def text (l : StringLiteral) : List Char := l.delimiter ++ (l.body ++ l.delimiter)

end StringLiteral

/-! ## Delimiters -/

theorem delimiterOf_eq_cons (quote : Char) (triple : Bool) :
    delimiterOf quote triple = quote :: List.replicate (quotesInside triple) quote := by
  cases triple <;> rfl

theorem delimiterOf_eq_concat (quote : Char) (triple : Bool) :
    delimiterOf quote triple = List.replicate (quotesInside triple) quote ++ [quote] := by
  cases triple <;> rfl

theorem startsWith_append (head rest : List Char) : startsWith head (head ++ rest) = true := by
  rw [startsWith]
  induction head with
  | nil => rfl
  | cons c head ih => rwa [List.cons_append, dropPrefix?, if_pos rfl]

/-- Fewer quotes than a delimiter has are none. -/
theorem startsWith_replicate {quote c : Char} (hc : c ≠ quote) {n m : Nat} (h : n < m)
    (rest : List Char) :
    startsWith (List.replicate m quote) (List.replicate n quote ++ c :: rest) = false := by
  rw [startsWith]
  induction n generalizing m with
  | zero =>
    obtain ⟨m, rfl⟩ := Nat.exists_eq_add_one_of_ne_zero (Nat.ne_of_gt h)
    rw [List.replicate_succ, List.replicate_zero, List.nil_append, dropPrefix?,
      if_neg (Ne.symm hc)]
    rfl
  | succ n ih =>
    obtain ⟨m, rfl⟩ := Nat.exists_eq_add_one_of_ne_zero (Nat.ne_of_gt (Nat.zero_lt_of_lt h))
    rw [List.replicate_succ, List.replicate_succ, List.cons_append, dropPrefix?, if_pos rfl]
    exact ih (Nat.lt_of_succ_lt_succ h)

/-! ## Finding the end -/

theorem literalRest_cons (delimiter : List Char) {c : Char} (hc : c ≠ '\\') (rest : List Char) :
    literalRest delimiter (c :: rest) =
      if startsWith delimiter (c :: rest) then delimiter.length
      else if delimiter.length = 1 && c = '\n' then 0
      else literalRest delimiter rest + 1 :=
  literalRest.eq_4 delimiter c rest (fun h _ => hc h) (fun _ _ h _ => hc h)

section Body

variable {quote : Char} {triple : Bool} (hquote : quote = '"' ∨ quote = '\'')
include hquote

theorem quote_ne : quote ≠ '\\' ∧ quote ≠ '\n' := by
  rcases hquote with rfl | rfl <;> decide

/-- The end is found where the delimiter stands. -/
theorem literalRest_delimiter (rest : List Char) :
    literalRest (delimiterOf quote triple) (delimiterOf quote triple ++ rest) =
      (delimiterOf quote triple).length := by
  have hstarts := startsWith_append (delimiterOf quote triple) rest
  rw [delimiterOf_eq_cons, List.cons_append] at hstarts ⊢
  rw [literalRest_cons _ (quote_ne hquote).1, if_pos hstarts]

omit hquote in
/-- A character that begins no delimiter and is no forbidden line break is passed over. -/
theorem literalRest_step {c : Char} (hc : c ≠ '\\') (hbreak : c = '\n' → triple = true)
    {rest : List Char} (hstarts : startsWith (delimiterOf quote triple) (c :: rest) = false) :
    literalRest (delimiterOf quote triple) (c :: rest) =
      literalRest (delimiterOf quote triple) rest + 1 := by
  have hgoes : ((delimiterOf quote triple).length = 1 && c = '\n') = false := by
    cases triple with
    | true => rfl
    | false =>
      have hne : c ≠ '\n' := fun h => absurd (hbreak h) Bool.false_ne_true
      simp [hne]
  rw [literalRest_cons _ hc, hstarts, hgoes]
  rfl

/-- So are quotes that are too few for a delimiter. -/
theorem literalRest_quotes {quotes : Nat} (hquotes : quotes ≤ quotesInside triple) {c : Char}
    (hc : c ≠ quote) (rest : List Char) :
    literalRest (delimiterOf quote triple) (List.replicate quotes quote ++ c :: rest) =
      literalRest (delimiterOf quote triple) (c :: rest) + quotes := by
  induction quotes with
  | zero => rfl
  | succ quotes ih =>
    have hfew : quotes + 1 < if triple then 3 else 1 := by
      cases triple with
      | true => exact Nat.lt_of_le_of_lt hquotes (by decide)
      | false => exact Nat.lt_of_le_of_lt hquotes (by decide)
    have hstarts := startsWith_replicate hc hfew rest
    rw [List.replicate_succ, List.cons_append] at hstarts ⊢
    rw [literalRest_step (quote_ne hquote).1 (fun h => absurd h (quote_ne hquote).2) hstarts,
      ih (Nat.le_of_succ_le hquotes), Nat.add_assoc]

/-- What stands between the delimiters is passed over as a whole. -/
theorem literalRest_body {body : List Char} (hbody : IsBody quote triple body)
    (rest : List Char) :
    literalRest (delimiterOf quote triple) (body ++ (delimiterOf quote triple ++ rest)) =
      body.length + (delimiterOf quote triple).length := by
  induction hbody with
  | nil => rw [List.nil_append, literalRest_delimiter hquote, List.length_nil, Nat.zero_add]
  | @char _ _ more hquotes hne hslash hbreak _ ih =>
    have hfew : 0 < if triple then 3 else 1 := by cases triple <;> decide
    have hstarts := startsWith_replicate hne hfew (more ++ (delimiterOf quote triple ++ rest))
    rw [List.append_assoc, List.cons_append, literalRest_quotes hquote hquotes hne,
      literalRest_step hslash hbreak hstarts, ih, List.length_append, List.length_replicate,
      List.length_cons]
    omega
  | escaped hquotes _ ih =>
    rw [List.append_assoc, List.cons_append, List.cons_append,
      literalRest_quotes hquote hquotes (quote_ne hquote).1.symm, literalRest, ih,
      List.length_append, List.length_replicate, List.length_cons, List.length_cons]
    omega

/-- A literal with single quotes does not look like one with three, unless it is empty and a quote
follows. -/
theorem startsWith_single {body : List Char} (hbody : IsBody quote false body) {rest : List Char}
    (hrest : body = [] → rest.head? ≠ some quote) :
    startsWith [quote, quote, quote] (quote :: (body ++ quote :: rest)) = false := by
  have hfirst {c : Char} (hc : c ≠ quote) (cs : List Char) :
      startsWith [quote, quote, quote] (quote :: c :: cs) = false :=
    startsWith_replicate (m := 3) (n := 1) hc (by decide) cs
  cases hbody with
  | nil =>
    cases rest with
    | nil => simp [startsWith, dropPrefix?]
    | cons c rest =>
      have hc : c ≠ quote := fun h => hrest rfl (congrArg some h)
      exact startsWith_replicate (m := 3) (n := 2) hc (by decide) rest
  | char hquotes hne hslash hbreak hbody =>
    obtain rfl := Nat.le_zero.mp hquotes
    exact hfirst hne _
  | escaped hquotes hbody =>
    obtain rfl := Nat.le_zero.mp hquotes
    exact hfirst (quote_ne hquote).1.symm _

end Body

namespace StringLiteral

variable (l : StringLiteral)

theorem text_eq_cons : l.text =
    l.quote :: (List.replicate (quotesInside l.triple) l.quote ++ (l.body ++ l.delimiter)) := by
  rw [text, delimiter, delimiterOf_eq_cons]
  rfl

theorem text_eq_concat : l.text =
    l.delimiter ++ (l.body ++ List.replicate (quotesInside l.triple) l.quote) ++ [l.quote] := by
  have hend : l.delimiter = List.replicate (quotesInside l.triple) l.quote ++ [l.quote] :=
    delimiterOf_eq_concat l.quote l.triple
  have htext : l.text = l.delimiter ++
      (l.body ++ (List.replicate (quotesInside l.triple) l.quote ++ [l.quote])) :=
    congrArg (fun closing => l.delimiter ++ (l.body ++ closing)) hend
  rw [htext, List.append_assoc, List.append_assoc]

/-- A literal is read to its end, unless it is empty and a further quote follows. -/
theorem literalLength_text {rest : List Char}
    (hrest : l.triple = false → l.body = [] → rest.head? ≠ some l.quote) :
    literalLength l.quote (l.text ++ rest) = l.text.length := by
  have hdelimiter : (if startsWith [l.quote, l.quote, l.quote] (l.text ++ rest)
      then [l.quote, l.quote, l.quote] else [l.quote]) = l.delimiter := by
    obtain ⟨quote, triple, body, hquote, hbody⟩ := l
    cases triple with
    | true =>
      rw [text, List.append_assoc]
      exact if_pos (startsWith_append _ _)
    | false =>
      refine if_neg ?_
      have hsingle := startsWith_single hquote hbody (hrest rfl)
      simpa [text, delimiter, delimiterOf] using hsingle
  rw [literalLength, hdelimiter]
  have hdrop : (l.text ++ rest).drop l.delimiter.length = l.body ++ (l.delimiter ++ rest) := by
    rw [text, List.append_assoc, List.drop_left, List.append_assoc]
  rw [hdrop, delimiter, literalRest_body l.isQuote l.isBody, text, List.length_append,
    List.length_append]
  rfl

/-- In that case it is read as the opening of a literal with three quotes. -/
theorem literalLength_text_iff (rest : List Char) :
    literalLength l.quote (l.text ++ rest) = l.text.length ↔
      (l.triple = false → l.body = [] → rest.head? ≠ some l.quote) := by
  refine ⟨fun hread htriple hbody hquote => ?_, l.literalLength_text⟩
  have htext : l.text = [l.quote, l.quote] := by
    rw [text, delimiter, hbody, htriple]
    rfl
  cases rest with
  | nil => cases hquote
  | cons c more =>
    obtain rfl : c = l.quote := Option.some.inj hquote
    have hthree := startsWith_append [l.quote, l.quote, l.quote] more
    rw [htext, literalLength] at hread
    dsimp only [List.cons_append, List.nil_append] at hread hthree
    rw [if_pos hthree] at hread
    simp only [List.length_cons, List.length_nil] at hread
    omega

end StringLiteral

/-! ## Closed literals -/

/-- Whether the closing delimiter is what `literalRest` stops at. -/
def endsInDelimiter (delimiter : List Char) : List Char → Bool
  | [] => false
  | ['\\'] => false
  | '\\' :: _ :: rest => endsInDelimiter delimiter rest
  | c :: rest =>
    if startsWith delimiter (c :: rest) then true
    else if delimiter.length = 1 && c = '\n' then false
    else endsInDelimiter delimiter rest

/-- Whether the string literal at the start of the text is closed. -/
def isTerminated (quote : Char) (cs : List Char) : Bool :=
  let delimiter := if startsWith [quote, quote, quote] cs then [quote, quote, quote] else [quote]
  endsInDelimiter delimiter (cs.drop delimiter.length)

/-- Whether each string literal is closed that is met on the way of `normalizeFrom`. -/
def closesLiterals (copy : Nat) (comment : Bool) : List Char → Bool
  | [] => true
  | c :: cs =>
    if copy > 0 then closesLiterals (copy - 1) false cs
    else if comment && c ≠ '\n' then closesLiterals 0 true cs
    else if c = '"' || c = '\'' then
      isTerminated c (c :: cs) && closesLiterals (literalLength c (c :: cs) - 1) false cs
    else closesLiterals 0 (c = '#') cs

/-- Read from the start, every string literal is closed: a quote that stands neither in a literal
nor in a comment begins one that is read with both its delimiters. -/
inductive Closed : List Char → Prop
  | nil : Closed []
  | literal {l : StringLiteral} {rest : List Char}
      (hread : literalLength l.quote (l.text ++ rest) = l.text.length) (hrest : Closed rest) :
      Closed (l.text ++ rest)
  | comment {body rest : List Char} (hbody : '\n' ∉ body) (hend : ∀ c ∈ rest.head?, c = '\n')
      (hrest : Closed rest) : Closed ('#' :: (body ++ rest))
  | code {c : Char} {rest : List Char} (hc : c ∉ ['"', '\'', '#']) (hrest : Closed rest) :
      Closed (c :: rest)

section

variable {quote : Char} {triple : Bool}

theorem startsWith_delimiterOf {n : Nat} (h : quotesInside triple < n) (rest : List Char) :
    startsWith (delimiterOf quote triple) (List.replicate n quote ++ rest) = true := by
  obtain ⟨more, rfl⟩ := Nat.exists_eq_add_of_lt h
  have hsplit : List.replicate (quotesInside triple + more + 1) quote =
      delimiterOf quote triple ++ List.replicate more quote := by
    rw [delimiterOf_eq_cons, ← List.replicate_succ, List.replicate_append_replicate]
    congr 1
    omega
  rw [hsplit, List.append_assoc]
  exact startsWith_append _ _

/-- A quote in front of what stands between the delimiters belongs to it, unless a delimiter begins
there. -/
theorem IsBody.cons_quote {body rest : List Char} (hbody : IsBody quote triple body)
    (h : startsWith (delimiterOf quote triple)
      (quote :: (body ++ (delimiterOf quote triple ++ rest))) = false) :
    IsBody quote triple (quote :: body) := by
  have hfew {n : Nat} {more : List Char} (hstarts : startsWith (delimiterOf quote triple)
      (List.replicate n quote ++ more) = false) : n ≤ quotesInside triple := by
    rcases Nat.lt_or_ge (quotesInside triple) n with hmany | hfew
    · rw [startsWith_delimiterOf hmany more] at hstarts
      cases hstarts
    · exact hfew
  cases hbody with
  | nil =>
    have hquotes : quote :: ([] ++ (delimiterOf quote triple ++ rest)) =
        List.replicate (quotesInside triple + 2) quote ++ rest := by
      rw [List.replicate_succ, List.replicate_succ, delimiterOf_eq_cons]
      rfl
    have hmany := hfew (hquotes ▸ h)
    omega
  | @char n c more hquotes hne hslash hbreak hrest =>
    rw [List.append_assoc, ← List.cons_append, ← List.replicate_succ] at h
    exact .char (hfew h) hne hslash hbreak hrest
  | @escaped n c more hquotes hrest =>
    rw [List.append_assoc, ← List.cons_append, ← List.replicate_succ] at h
    exact .escaped (hfew h) hrest

/-- What stands in front of the closing delimiter is what may stand there. -/
theorem exists_isBody {cs : List Char} (h : endsInDelimiter (delimiterOf quote triple) cs = true) :
    ∃ body rest, IsBody quote triple body ∧ cs = body ++ (delimiterOf quote triple ++ rest) := by
  induction cs using endsInDelimiter.induct (delimiterOf quote triple) with
  | case1 => cases h
  | case2 => cases h
  | case3 c rest ih =>
    obtain ⟨body, more, hbody, rfl⟩ := ih (by simpa [endsInDelimiter] using h)
    exact ⟨_, more, .escaped (Nat.zero_le _) hbody, rfl⟩
  | case4 c rest hslash hescape hstarts =>
    obtain ⟨more, hmore⟩ := Option.isSome_iff_exists.mp hstarts
    have heq := eq_append_of_dropPrefix? hmore
    exact ⟨[], more, .nil, heq⟩
  | case5 c rest hslash hescape hstarts hbreak =>
    rw [endsInDelimiter.eq_4 _ _ _ hslash hescape, if_neg hstarts, if_pos hbreak] at h
    cases h
  | case6 c rest hslash hescape hstarts hbreak ih =>
    rw [endsInDelimiter.eq_4 _ _ _ hslash hescape, if_neg hstarts, if_neg hbreak] at h
    obtain ⟨body, more, hbody, rfl⟩ := ih h
    refine ⟨c :: body, more, ?_, rfl⟩
    by_cases hquote : c = quote
    · subst hquote
      exact hbody.cons_quote (Bool.eq_false_iff.mpr hstarts)
    · have hne : c ≠ '\\' := by
        rintro rfl
        cases hrest : body ++ (delimiterOf quote triple ++ more) with
        | nil => exact hslash rfl hrest
        | cons d others => exact hescape d others rfl hrest
      refine .char (Nat.zero_le _) hquote hne (fun hc => ?_) hbody
      cases triple with
      | true => rfl
      | false =>
        rw [hc] at hbreak
        exact absurd rfl hbreak

end

/-- A literal that is closed is read with both its delimiters. -/
theorem exists_literal {quote : Char} (hquote : quote = '"' ∨ quote = '\'') {cs : List Char}
    (h : isTerminated quote (quote :: cs) = true) : ∃ l : StringLiteral, ∃ rest, l.quote = quote ∧
      quote :: cs = l.text ++ rest ∧ literalLength quote (l.text ++ rest) = l.text.length := by
  rw [isTerminated] at h
  by_cases htriple : startsWith [quote, quote, quote] (quote :: cs) = true
  · rw [if_pos htriple] at h
    obtain ⟨tail, htail⟩ := Option.isSome_iff_exists.mp htriple
    have heq := eq_append_of_dropPrefix? htail
    rw [heq] at h
    have hends : endsInDelimiter (delimiterOf quote true) tail = true := h
    obtain ⟨body, rest, hbody, rfl⟩ := exists_isBody hends
    let l : StringLiteral := ⟨quote, true, body, hquote, hbody⟩
    refine ⟨l, rest, rfl, ?_, l.literalLength_text nofun⟩
    rw [heq, StringLiteral.text, List.append_assoc, List.append_assoc]
    rfl
  · rw [if_neg htriple] at h
    have hends : endsInDelimiter (delimiterOf quote false) cs = true := h
    obtain ⟨body, rest, hbody, hcs⟩ := exists_isBody hends
    let l : StringLiteral := ⟨quote, false, body, hquote, hbody⟩
    have heq : quote :: cs = l.text ++ rest := by
      rw [StringLiteral.text, List.append_assoc, List.append_assoc]
      exact congrArg (quote :: ·) hcs
    refine ⟨l, rest, rfl, heq, l.literalLength_text fun _ hempty hfollows => htriple ?_⟩
    -- an empty literal with a further quote would open with three
    obtain rfl : body = [] := hempty
    obtain ⟨more, rfl⟩ := List.head?_eq_some_iff.mp hfollows
    rw [heq]
    exact startsWith_append [quote, quote, quote] more

/-! ## The whole text -/

theorem closesLiterals_copy (copied rest : List Char) :
    closesLiterals copied.length false (copied ++ rest) = closesLiterals 0 false rest := by
  induction copied with
  | nil => rfl
  | cons c copied ih =>
    rw [List.cons_append, List.length_cons, closesLiterals, if_pos (Nat.succ_pos _)]
    exact ih

theorem closesLiterals_comment (cs : List Char) :
    closesLiterals 0 true cs = closesLiterals 0 false (cs.dropWhile (· ≠ '\n')) := by
  induction cs with
  | nil => rfl
  | cons c cs ih =>
    by_cases hc : c = '\n'
    · subst hc
      rfl
    · rw [List.dropWhile_cons_of_pos (by simpa using hc), ← ih, closesLiterals,
        if_neg (Nat.lt_irrefl 0), if_pos (by simpa using hc)]

/-- A text is made of closed literals, comments and other characters, if a scan comes to the end of
each literal that it meets. -/
theorem closed_of_closesLiterals {text : List Char} (h : closesLiterals 0 false text = true) :
    Closed text := by
  induction hlength : text.length using Nat.strongRecOn generalizing text with
  | ind n ih =>
    subst hlength
    cases text with
    | nil => exact .nil
    | cons c cs =>
      rw [closesLiterals, if_neg (Nat.lt_irrefl 0), if_neg (by simp)] at h
      by_cases hquote : c = '"' ∨ c = '\''
      · rw [if_pos (by simpa using hquote), Bool.and_eq_true] at h
        obtain ⟨l, rest, rfl, heq, hread⟩ := exists_literal hquote h.1
        obtain ⟨more, hmore⟩ : ∃ more, l.text = l.quote :: more := ⟨_, l.text_eq_cons⟩
        have hcs : cs = more ++ rest := by
          rw [hmore] at heq
          exact (List.cons.inj heq).2
        rw [heq] at h ⊢
        rw [hread, hmore, hcs] at h
        refine .literal hread (ih rest.length ?_ ?_ rfl)
        · rw [hcs, List.length_cons, List.length_append]
          omega
        · exact (closesLiterals_copy more rest).symm.trans h.2
      · rw [if_neg (by simpa using hquote)] at h
        by_cases hhash : c = '#'
        · subst hhash
          have hcomment : closesLiterals 0 true cs = true := h
          rw [closesLiterals_comment] at hcomment
          have heq := List.takeWhile_append_dropWhile (p := (· ≠ '\n')) (l := cs)
          rw [← heq]
          refine .comment (fun hbreak => ?_) (fun d hd => ?_) (ih _ ?_ hcomment rfl)
          · have hkept := List.mem_takeWhile_imp hbreak
            simp at hkept
          · have hstops := List.head?_dropWhile_not (· ≠ '\n') cs
            rw [hd] at hstops
            simpa using hstops
          · have hle := (List.dropWhile_suffix (l := cs) (· ≠ '\n')).length_le
            exact Nat.lt_succ_of_le hle
        · have hcode : closesLiterals 0 false cs = true := by simpa [hhash] using h
          obtain ⟨hdouble, hsingle⟩ := not_or.mp hquote
          have hrest : Closed cs := ih cs.length (Nat.lt_succ_self _) hcode rfl
          exact .code (by simp [hdouble, hsingle, hhash]) hrest

end Python
end ApiSync
