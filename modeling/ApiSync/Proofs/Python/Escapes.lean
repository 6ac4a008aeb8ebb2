import ApiSync.Proofs.Failing
import ApiSync.Python.Docstring
/-!
# What it takes to decode a literal

Reading a literal can fail in one way only: a numeric escape names a code point beyond the last
one.  Literals are read in order and no further than they are needed, so the texts that are decoded
are listed first; reading succeeds exactly if none of them has such an escape.
-/

namespace ApiSync
namespace Python

open Text

/-- An escape beyond the last code point, at a place where an escape is read. -/
inductive HasLargeEscape : List Char → Prop
  | here {letter : Char} {rest : List Char} {n : Nat} (h : hexEscape? letter rest = some n)
      (large : highestPoint < n) : HasLargeEscape ('\\' :: letter :: rest)
  | behindNumber {letter : Char} {rest : List Char} {n : Nat}
      (h : hexEscape? letter rest = some n)
      (later : HasLargeEscape (rest.drop (hexEscapeLength letter))) :
      HasLargeEscape ('\\' :: letter :: rest)
  | behindPair {c : Char} {rest : List Char} (h : hexEscape? c rest = none)
      (later : HasLargeEscape rest) : HasLargeEscape ('\\' :: c :: rest)
  | behindChar {c : Char} {rest : List Char} (h : c ≠ '\\') (later : HasLargeEscape rest) :
      HasLargeEscape (c :: rest)

/-- None of the texts has an escape that is too large. -/
def Decodes (texts : List (List Char)) : Prop := ∀ text ∈ texts, ¬HasLargeEscape text

theorem decodes_nil : Decodes [] := fun _ h => absurd h List.not_mem_nil

theorem decodes_cons {text : List Char} {texts : List (List Char)} :
    Decodes (text :: texts) ↔ ¬HasLargeEscape text ∧ Decodes texts := List.forall_mem_cons

theorem decodes_append {texts more : List (List Char)} :
    Decodes (texts ++ more) ↔ Decodes texts ∧ Decodes more := by
  simp only [Decodes, List.mem_append, or_imp, forall_and]

theorem decodes_flatMap {α : Type} {xs : List α} {f : α → List (List Char)} :
    Decodes (xs.flatMap f) ↔ ∀ x ∈ xs, Decodes (f x) := by
  simp only [Decodes, List.mem_flatMap]
  exact ⟨fun h x hx text ht => h text ⟨x, hx, ht⟩, fun h text ⟨x, hx, ht⟩ => h x hx text ht⟩

/-- The step succeeds if all of the texts can be decoded, and it can fail in no other way. -/
abbrev Reads (texts : List (List Char)) {α : Type} (x : Except Failure α) : Prop :=
  Needs .codePointTooLarge (Decodes texts) x

theorem reads_pure {α : Type} (a : α) : Reads [] (pure a) :=
  (needs_pure a).congr (iff_of_true trivial decodes_nil)

theorem Reads.bind {α β : Type} {texts more : List (List Char)} {x : Except Failure α}
    {f : α → Except Failure β} (hx : Reads texts x) (hf : ∀ a, x = .ok a → Reads more (f a)) :
    Reads (texts ++ more) (x >>= f) :=
  (Needs.bind hx hf).congr decodes_append.symm

theorem reads_mapM {α β : Type} {f : α → Except Failure β} {texts : α → List (List Char)}
    (h : ∀ x, Reads (texts x) (f x)) (xs : List α) : Reads (xs.flatMap texts) (xs.mapM f) :=
  (needs_mapM h xs).congr decodes_flatMap.symm

theorem reads_foldlM {α σ : Type} {f : σ → α → Except Failure σ} {texts : α → List (List Char)}
    (h : ∀ s x, Reads (texts x) (f s x)) (xs : List α) (s : σ) :
    Reads (xs.flatMap texts) (xs.foldlM f s) :=
  (needs_foldlM h xs s).congr decodes_flatMap.symm

/-! ## Escapes -/

theorem not_hasLargeEscape_nil : ¬HasLargeEscape [] := fun h => nomatch h

theorem hasLargeEscape_cons {c : Char} {cs : List Char} (h : c ≠ '\\') :
    HasLargeEscape (c :: cs) ↔ HasLargeEscape cs := by
  refine ⟨fun hlarge => ?_, .behindChar h⟩
  cases hlarge with
  | behindChar _ later => exact later
  | _ => exact absurd rfl h

theorem hasLargeEscape_pair {c : Char} {rest : List Char} (h : hexEscape? c rest = none) :
    HasLargeEscape ('\\' :: c :: rest) ↔ HasLargeEscape rest := by
  refine ⟨fun hlarge => ?_, .behindPair h⟩
  cases hlarge with
  | here hn _ => rw [h] at hn; cases hn
  | behindNumber hn _ => rw [h] at hn; cases hn
  | behindPair _ later => exact later
  | behindChar hne _ => exact absurd rfl hne

theorem hasLargeEscape_number {letter : Char} {rest : List Char} {n : Nat}
    (h : hexEscape? letter rest = some n) :
    HasLargeEscape ('\\' :: letter :: rest) ↔
      highestPoint < n ∨ HasLargeEscape (rest.drop (hexEscapeLength letter)) := by
  refine ⟨fun hlarge => ?_, fun hor => hor.elim (.here h) (.behindNumber h)⟩
  cases hlarge with
  | here hn large =>
    obtain rfl := Option.some.inj (h.symm.trans hn)
    exact Or.inl large
  | behindNumber _ later => exact Or.inr later
  | behindPair hn _ => rw [h] at hn; cases hn
  | behindChar hne _ => exact absurd rfl hne

theorem decodeFrom_skip (skip : Nat) (cs : List Char) :
    decodeFrom skip cs = decodeFrom 0 (cs.drop skip) := by
  induction cs generalizing skip with
  | nil => rw [List.drop_nil]; rfl
  | cons c cs ih =>
    cases skip with
    | zero => rfl
    | succ skip =>
      rw [decodeFrom.eq_def]
      dsimp only
      rw [if_pos (Nat.succ_pos skip), List.drop_succ_cons]
      exact ih skip

theorem decodeFrom_cons {c : Char} (h : c ≠ '\\') (cs : List Char) :
    decodeFrom 0 (c :: cs) = do return c.toNat :: (← decodeFrom 0 cs) := by
  rw [decodeFrom.eq_def]
  dsimp only
  rw [if_neg (Nat.lt_irrefl 0), if_pos h]

/-- A backslash and the character behind it, if they are no numeric escape. -/
theorem decodeFrom_pair {c : Char} {rest : List Char} (h : hexEscape? c rest = none) :
    ∃ points, decodeFrom 0 ('\\' :: c :: rest) = do return points ++ (← decodeFrom 0 rest) := by
  have hskip : decodeFrom 1 (c :: rest) = decodeFrom 0 rest := decodeFrom_skip 1 (c :: rest)
  rw [decodeFrom.eq_def]
  dsimp only
  rw [if_neg (Nat.lt_irrefl 0), if_neg (fun hne => hne rfl), h]
  dsimp only
  rw [hskip]
  split
  · exact ⟨_, rfl⟩
  · exact ⟨['\\'.toNat, c.toNat], rfl⟩

theorem decodeFrom_number {letter : Char} {rest : List Char} {n : Nat}
    (h : hexEscape? letter rest = some n) :
    decodeFrom 0 ('\\' :: letter :: rest) =
      if highestPoint < n then throw .codePointTooLarge
      else do return n :: (← decodeFrom 0 (rest.drop (hexEscapeLength letter))) := by
  have hskip : decodeFrom (1 + hexEscapeLength letter) (letter :: rest) =
      decodeFrom 0 (rest.drop (hexEscapeLength letter)) := by
    rw [decodeFrom_skip, Nat.add_comm, List.drop_succ_cons]
  rw [decodeFrom.eq_def]
  dsimp only
  rw [if_neg (Nat.lt_irrefl 0), if_neg (fun hne => hne rfl), h]
  dsimp only
  rw [hskip]

/-- An escape takes several characters at once, so the induction is on a bound of the length. -/
theorem needs_decodeFrom {bound : Nat} {body : List Char} (hbody : body.length ≤ bound) :
    Needs Failure.codePointTooLarge (¬HasLargeEscape body) (decodeFrom 0 body) := by
  induction bound generalizing body with
  | zero =>
    obtain rfl : body = [] := List.length_eq_zero_iff.mp (Nat.le_zero.mp hbody)
    exact (needs_pure []).congr (iff_of_true trivial not_hasLargeEscape_nil)
  | succ bound ih =>
    cases body with
    | nil => exact (needs_pure []).congr (iff_of_true trivial not_hasLargeEscape_nil)
    | cons c cs =>
      have hcs : cs.length ≤ bound := Nat.le_of_succ_le_succ hbody
      by_cases hc : c = '\\'
      · rw [hc]
        cases cs with
        | nil =>
          refine (needs_pure _).congr (iff_of_true trivial fun h => ?_)
          cases h with
          | behindChar hne _ => exact hne rfl
        | cons letter rest =>
          have hrest : rest.length ≤ bound := Nat.le_of_succ_le hcs
          cases hhex : hexEscape? letter rest with
          | none =>
            obtain ⟨points, hpoints⟩ := decodeFrom_pair hhex
            rw [hpoints, hasLargeEscape_pair hhex]
            exact (ih hrest).bind_pure _
          | some n =>
            have hlater : (rest.drop (hexEscapeLength letter)).length ≤ bound :=
              Nat.le_trans (by simp) hrest
            rw [decodeFrom_number hhex, hasLargeEscape_number hhex]
            split
            · next hlarge =>
              exact needs_throw.congr (iff_of_false id fun h => h (Or.inl hlarge))
            · next hlarge =>
              refine ((ih hlater).bind_pure _).congr ?_
              rw [or_iff_right hlarge]
      · rw [decodeFrom_cons hc, hasLargeEscape_cons hc]
        exact (ih hcs).bind_pure _

theorem reads_decodeEscapes (body : List Char) : Reads [body] (decodeEscapes body) :=
  (needs_decodeFrom (Nat.le_refl _)).congr (decodes_cons.trans (and_iff_left decodes_nil)).symm

/-! ## Literals -/

/-- What reading one piece of a literal decodes, and whether the piece has a value. -/
structure Decoded where
  texts : List (List Char)
  hasValue : Bool

/-- The texts that are decoded of adjacent pieces: those up to a piece without a value. -/
def joinedTexts (decoded : String → Decoded) : List String → List (List Char)
  | [] => []
  | piece :: pieces =>
    (decoded piece).texts ++ if (decoded piece).hasValue then joinedTexts decoded pieces else []

/-- Reading a piece decodes the texts, and it has a value if they say so. -/
structure Describes {α : Type} (d : Decoded) (x : Except Failure (Option α)) : Prop where
  reads : Reads d.texts x
  value : ∀ a, x = .ok a → a.isSome = d.hasValue

theorem describes_none {α : Type} : Describes ⟨[], false⟩ (pure (none : Option α)) :=
  ⟨reads_pure _, fun _ h => pure_eq_ok.mp h ▸ rfl⟩

theorem Reads.describes {α : Type} {texts : List (List Char)} {x : Except Failure α}
    (h : Reads texts x) : Describes ⟨texts, true⟩ (some <$> x) := by
  refine ⟨h.map some, fun a ha => ?_⟩
  cases x with
  | error f => cases ha
  | ok b => cases ha; rfl

theorem reads_joinPieces {decode : String → Except Failure (Option (List Nat))}
    {decoded : String → Decoded} (h : ∀ piece, Describes (decoded piece) (decode piece))
    (pieces : List String) : Reads (joinedTexts decoded pieces) (joinPieces decode pieces) := by
  induction pieces with
  | nil => exact reads_pure _
  | cons piece pieces ih =>
    rw [joinPieces, joinedTexts]
    refine (h piece).reads.bind fun points hpoints => ?_
    rw [← (h piece).value points hpoints]
    cases points with
    | none => exact reads_pure _
    | some points => exact ih.bind_pure _

/-- The escapes of a raw literal stand for themselves. -/
def textsOf (raw : Bool) (cs : List Char) : List (List Char) := if raw then [] else [cs]

theorem reads_decodeText (raw : Bool) (cs : List Char) :
    Reads (textsOf raw cs) (decodeText raw cs) := by
  cases raw with
  | true => exact reads_pure _
  | false => exact reads_decodeEscapes cs

def plainPieceTexts (piece : String) : Decoded :=
  match splitLiteral? piece with
  | none => ⟨[], false⟩
  | some p =>
    if p.has 'f' || p.has 'b' then ⟨[], false⟩ else ⟨textsOf (p.has 'r') p.body, true⟩

theorem describes_decodePiece (piece : String) :
    Describes (plainPieceTexts piece) (decodePiece piece) := by
  rw [plainPieceTexts, decodePiece]
  cases splitLiteral? piece with
  | none => exact describes_none
  | some p =>
    dsimp only
    split
    · exact describes_none
    · have hread := (reads_decodeText (p.has 'r') p.body).describes
      rw [decodeText] at hread
      split at hread
      · next hraw => rw [if_pos hraw]; exact hread
      · next hraw => rw [if_neg hraw]; exact hread

/-- The texts in front of the fields that stand for a placeholder, as far as they are decoded:
up to a field that does not. -/
def fieldTexts (raw : Bool) (pending : List Char) : List FormatPart → List (List Char)
  | [] => textsOf raw pending
  | .text cs :: rest => fieldTexts raw (pending ++ cs) rest
  | .unclosed :: _ => []
  | .field name :: rest =>
    if (placeholder? name).isSome then textsOf raw pending ++ fieldTexts raw [] rest else []

def isResolved : List FormatPart → Bool
  | [] => true
  | .text _ :: rest => isResolved rest
  | .unclosed :: _ => false
  | .field name :: rest => (placeholder? name).isSome && isResolved rest

theorem describes_resolveParts (raw : Bool) (pending : List Char) (parts : List FormatPart) :
    Describes ⟨fieldTexts raw pending parts, isResolved parts⟩
      (resolveParts raw pending parts) := by
  induction parts generalizing pending with
  | nil => exact (reads_decodeText raw pending).describes
  | cons part rest ih =>
    cases part with
    | text cs => exact ih (pending ++ cs)
    | unclosed => exact describes_none
    | field name =>
      rw [fieldTexts, isResolved, resolveParts]
      cases placeholder? name with
      | none => exact describes_none
      | some value =>
        constructor
        · exact (reads_decodeText raw pending).bind fun before _ => (ih []).reads.bind_pure _
        · intro a ha
          obtain ⟨before, -, ha⟩ := bind_eq_ok.mp ha
          obtain ⟨points, hpoints, ha⟩ := bind_eq_ok.mp ha
          rw [← pure_eq_ok.mp ha, Option.isSome_map]
          exact (ih []).value points hpoints

def pathPieceTexts (piece : String) : Decoded :=
  match splitLiteral? piece with
  | none => ⟨[], false⟩
  | some p =>
    if p.has 'b' then ⟨[], false⟩
    else if p.has 'f' then
      let parts := formatPartsFrom .text p.body
      ⟨fieldTexts (p.has 'r') [] parts, isResolved parts⟩
    else ⟨textsOf (p.has 'r') p.body, true⟩

theorem describes_pathPiece (piece : String) :
    Describes (pathPieceTexts piece) (pathPiece piece) := by
  rw [pathPieceTexts, pathPiece]
  cases splitLiteral? piece with
  | none => exact describes_none
  | some p =>
    dsimp only
    split
    · exact describes_none
    · split
      · exact describes_resolveParts _ _ _
      · exact (reads_decodeText _ _).describes

/-! ## Expressions -/

/-- The texts that reading an expression as a plain string decodes. -/
def Expr.plainTexts (e : Expr) : List (List Char) :=
  match e.form with
  | .strings pieces => joinedTexts plainPieceTexts pieces
  | _ => []

/-- The texts that reading an expression as a route path decodes. -/
def Expr.pathTexts (e : Expr) : List (List Char) :=
  match e.form with
  | .strings pieces => joinedTexts pathPieceTexts pieces
  | _ => []

theorem reads_decodePieces (pieces : List String) :
    Reads (joinedTexts plainPieceTexts pieces) (decodePieces pieces) :=
  (reads_joinPieces describes_decodePiece pieces).map textOf

theorem Expr.reads_string? (e : Expr) : Reads e.plainTexts e.string? := by
  rw [plainTexts, string?]
  cases e.form with
  | strings pieces => exact reads_decodePieces pieces
  | _ => exact reads_pure _

theorem Expr.reads_path? (e : Expr) : Reads e.pathTexts e.path? := by
  rw [pathTexts, path?]
  cases e.form with
  | strings pieces => exact (reads_joinPieces describes_pathPiece pieces).map textOf
  | _ => exact reads_pure _

theorem Expr.reads_constant? (e : Expr) : Reads e.plainTexts e.constant? := by
  rw [plainTexts, constant?]
  cases e.form with
  | strings pieces => exact (reads_decodePieces pieces).map _
  | unary operator operand => dsimp only; split <;> exact reads_pure _
  | _ => exact reads_pure _

theorem Expr.reads_constantString? (e : Expr) : Reads e.plainTexts e.constantString? :=
  e.reads_constant?.bind_pure _

/-- The texts of the docstring of a body. -/
def docstringTexts (body : List Statement) : List (List Char) :=
  match docstringPieces? body with
  | some pieces => joinedTexts plainPieceTexts pieces
  | none => []

theorem reads_docstring (body : List Statement) : Reads (docstringTexts body) (docstring body) := by
  rw [docstringTexts, docstring]
  cases docstringPieces? body with
  | none => exact reads_pure _
  | some pieces =>
    dsimp only
    rw [← List.append_nil (joinedTexts plainPieceTexts pieces)]
    refine (reads_decodePieces pieces).bind fun doc _ => ?_
    cases doc with
    | none => exact reads_pure _
    | some doc => exact reads_pure _

end Python
end ApiSync
