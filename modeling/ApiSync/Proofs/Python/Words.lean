import ApiSync.Proofs.Text.Ascii
import ApiSync.Python.Token
import ApiSync.Value
/-!
# The words among the tokens

A word of Python source starts as a name does.  So it is no number, and a mapping keeps the entries
that are named by words in the order in which they come.
-/

namespace ApiSync
namespace Python

open Text

/-- A name starts with a letter or an underscore. -/
def IsName (text : String) : Prop := ∀ c ∈ text.toList.head?, isIdentifierStart c = true

theorem isDigit_of_isIdentifierStart {c : Char} (h : isIdentifierStart c = true) :
    c.isDigit = false := by
  by_cases hc : IsAscii c
  · exact forall_ascii (P := fun c => isIdentifierStart c = true → c.isDigit = false)
      (by decide) hc h
  · have habove : ¬c.val.toNat < 128 := hc
    rw [Char.isDigit, Bool.and_eq_false_iff, decide_eq_false_iff_not, decide_eq_false_iff_not]
    right
    rw [UInt32.le_iff_toNat_le]
    show ¬c.val.toNat ≤ 57
    omega

/-- No name spells an index. -/
theorem IsName.indexOf?_eq_none {text : String} (h : IsName text) :
    Fields.indexOf? text = none := by
  rw [Fields.indexOf?, if_neg]
  rintro ⟨hne, hdigits, -⟩
  obtain ⟨c, cs, heq⟩ := List.exists_cons_of_ne_nil hne
  rw [heq, List.all_cons, Bool.and_eq_true] at hdigits
  have hstart := h c (by rw [heq]; rfl)
  rw [isDigit_of_isIdentifierStart hstart] at hdigits
  cases hdigits.1

/-! ## Tokens -/

/-- The words among the tokens are names. -/
def AreNamed (ts : List Token) : Prop := ∀ t ∈ ts, ∀ text, t.kind = .word text → IsName text

theorem areNamed_nil : AreNamed [] := fun _ ht => absurd ht List.not_mem_nil

theorem AreNamed.append {ts us : List Token} (ht : AreNamed ts) (hu : AreNamed us) :
    AreNamed (ts ++ us) :=
  fun t hmem => (List.mem_append.mp hmem).elim (ht t) (hu t)

theorem areNamed_token {c : Cursor} {kind : TokenKind} {n : Nat}
    (h : ∀ text, kind = .word text → IsName text) : AreNamed [c.token kind n] := by
  intro t ht
  rw [List.mem_singleton.mp ht]
  exact h

/-- The tokens of a step that reads no word. -/
theorem areNamed_other {c : Cursor} {kind : TokenKind} {n : Nat} (h : ∀ text, kind ≠ .word text) :
    AreNamed [c.token kind n] :=
  areNamed_token fun text htext => absurd htext (h text)

theorem areNamed_failStep (c : Cursor) : AreNamed (failStep c).tokens := areNamed_other nofun

theorem areNamed_ite {p : Prop} [Decidable p] {s t : Step} (hs : p → AreNamed s.tokens)
    (ht : ¬p → AreNamed t.tokens) : AreNamed (if p then s else t).tokens :=
  iteInduction (motive := fun u : Step => AreNamed u.tokens) hs ht

theorem areNamed_stringStep (d : Delimiter) (fresh : Bool) (modes : List Mode) (c : Cursor) :
    AreNamed (stringStep d fresh modes c).tokens := by
  unfold stringStep
  extract_lets stay
  have hstay : ∀ isFresh n, AreNamed (stay isFresh n).tokens := fun _ _ => areNamed_nil
  cases c.rest with
  | nil => exact areNamed_failStep c
  | cons x xs =>
    refine areNamed_ite (fun _ => ?_) fun _ => areNamed_ite (fun _ => ?_) fun _ =>
      areNamed_ite (fun _ => ?_) fun _ => areNamed_ite (fun _ => ?_) fun _ => ?_
    · exact areNamed_ite (fun _ => hstay true 2) fun _ => areNamed_other nofun
    · exact areNamed_ite (fun _ => hstay true 2) fun _ => areNamed_failStep c
    · exact areNamed_ite (fun _ => hstay fresh _) fun _ =>
        areNamed_ite (fun _ => hstay false 2) fun _ => hstay true _
    · exact areNamed_ite (fun _ => areNamed_other nofun) fun _ =>
        areNamed_ite (fun _ => areNamed_other nofun) fun _ => hstay false 1
    · exact areNamed_ite (fun _ => areNamed_failStep c) fun _ => hstay false 1

theorem isName_takeWhile {x : Char} (h : isIdentifierStart x = true) (xs : List Char) :
    IsName (String.ofList ((x :: xs).takeWhile isIdentifierChar)) := by
  intro c hc
  rw [String.toList_ofList, List.takeWhile_cons] at hc
  split at hc
  · rw [← Option.some.inj hc]
    exact h
  · cases hc

theorem number?_ne_word {cs : List Char} {kind : TokenKind} {n : Nat}
    (h : number? cs = some (kind, n)) (text : String) : kind ≠ .word text := by
  rintro rfl
  unfold number? at h
  dsimp only at h
  split at h
  · cases h
  split at h
  · next rest _ =>
    generalize (if rest.head?.any Char.isDigit then digitRun false rest else 0) = frac at h
    split at h
    · cases h
    · cases h
  · split at h
    · cases h
    · split at h
      · cases h
      · cases h

theorem areNamed_codeStep (inField : Bool) (depth : Nat) (modes : List Mode) (c : Cursor) :
    AreNamed (codeStep inField depth modes c).tokens := by
  unfold codeStep
  extract_lets mode stay emit word
  have hstay : ∀ n, AreNamed (stay n).tokens := fun _ => areNamed_nil
  have hother : ∀ {kind n}, (∀ text, kind ≠ .word text) → AreNamed (emit kind n).tokens :=
    areNamed_other
  cases hrest : c.rest with
  | nil => exact areNamed_failStep c
  | cons x xs =>
    refine areNamed_ite (fun _ => ?_) fun _ => areNamed_ite (fun _ => hstay 1) fun _ =>
      areNamed_ite (fun _ => hstay _) fun _ => areNamed_ite (fun _ => ?_) fun _ => ?_
    · exact areNamed_ite (fun _ => hstay 1) fun _ => hother nofun
    · split
      · exact hstay 2
      · exact hstay 3
      · exact areNamed_failStep c
    cases stringStart? (x :: xs) with
    | some start => exact areNamed_other nofun
    | none =>
      refine areNamed_ite (fun hstart => ?_) fun _ => ?_
      · have hname := isName_takeWhile hstart xs
        rw [← hrest] at hname
        exact areNamed_token fun text htext => TokenKind.word.inj htext ▸ hname
      cases hnumber : number? (x :: xs) with
      | some number => exact hother (number?_ne_word hnumber)
      | none =>
        refine areNamed_ite (fun _ => areNamed_other nofun) fun _ =>
          areNamed_ite (fun _ => areNamed_other nofun) fun _ =>
            areNamed_ite (fun _ => hother nofun) fun _ => ?_
        cases operator? (x :: xs) with
        | none => exact areNamed_failStep c
        | some op => exact areNamed_other nofun

theorem areNamed_formatStep (modes : List Mode) (c : Cursor) :
    AreNamed (formatStep modes c).tokens := by
  unfold formatStep
  split
  · exact areNamed_failStep c
  split
  · exact areNamed_other nofun
  split
  · exact areNamed_other nofun
  · exact areNamed_nil

theorem areNamed_step (modes : List Mode) (c : Cursor) : AreNamed (step modes c).tokens := by
  unfold step
  split
  · exact areNamed_codeStep false _ _ c
  · exact areNamed_codeStep true _ _ c
  · exact areNamed_formatStep _ c
  · exact areNamed_stringStep _ _ _ c
  · exact areNamed_failStep c

theorem areNamed_tokensFrom (fuel : Nat) (modes : List Mode) (c : Cursor) :
    AreNamed (tokensFrom fuel modes c) := by
  induction fuel generalizing modes c with
  | zero => exact areNamed_nil
  | succ fuel ih =>
    unfold tokensFrom
    split
    · split
      · exact areNamed_other nofun
      · exact areNamed_other nofun
    · exact (areNamed_step modes c).append (ih _ _)

theorem dropEmptyLines_subset (afterBreak : Bool) (ts : List Token) :
    dropEmptyLines afterBreak ts ⊆ ts := by
  induction ts generalizing afterBreak with
  | nil => exact List.Subset.refl []
  | cons t ts ih =>
    rw [dropEmptyLines]
    split
    · split
      · exact List.subset_cons_of_subset t (ih true)
      · exact List.cons_subset_cons t (ih true)
    · exact List.cons_subset_cons t (ih false)

theorem areNamed_tokens (source : List Char) : AreNamed (tokens source) :=
  fun t ht => areNamed_tokensFrom _ _ _ t (dropEmptyLines_subset true _ ht)

end Python
end ApiSync
