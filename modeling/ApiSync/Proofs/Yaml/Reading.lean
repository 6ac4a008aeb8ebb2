import ApiSync.Proofs.Metadata.WellFormed
import ApiSync.Yaml.Reader
/-!
# What a reader of YAML text leaves behind

A reader gives a result and moves on.  `Yields` says of a reader that its results have a property
and that the values of the anchors stay well formed on the way, and it is put together along the
steps of the reader.  Most readers only pass over text and leave the anchors alone.
-/

namespace ApiSync
namespace Yaml

/-- The nodes that can be referred to have well-formed values. -/
def Position.WellAnchored (p : Position) : Prop :=
  ∀ a ∈ p.anchors, ∀ v, a.value = some v → v.WellFormed

namespace Position

variable {p q : Position}

theorem WellAnchored.congr (h : p.WellAnchored) (hq : q.anchors = p.anchors) :
    q.WellAnchored := by
  rw [WellAnchored, hq]
  exact h

theorem skipBlanks_anchors (p : Position) : p.skipBlanks.anchors = p.anchors := by
  rw [skipBlanks]
  split <;> rfl

theorem seekFrom_anchors (fuel : Nat) (p : Position) : (seekFrom fuel p).anchors = p.anchors := by
  induction fuel generalizing p with
  | zero => rfl
  | succ fuel ih =>
    rw [seekFrom]
    dsimp only
    split
    · exact ih _
    · split
      · rfl
      · exact ih _
    · rfl

end Position

namespace Read

variable {α β : Type} {P : α → Prop} {Q : β → Prop}

/-- With well-formed anchors before there are well-formed anchors after, and the result has the
property. -/
def Yields (P : α → Prop) (r : Read α) : Prop :=
  ∀ p a q, r p = some (a, q) → p.WellAnchored → q.WellAnchored ∧ P a

/-- A reader of which only the move matters. -/
abbrev Passes (r : Read α) : Prop := Yields (fun _ => True) r

theorem yields_pure {a : α} (h : P a) : Yields P (pure a) := by
  intro p b q hr hp
  cases hr
  exact ⟨hp, h⟩

theorem yields_fail : Yields P (fail : Read α) := fun _ _ _ h => nomatch h

theorem Yields.bind {r : Read α} {k : α → Read β} (hr : Yields P r)
    (hk : ∀ a, P a → Yields Q (k a)) : Yields Q (r >>= k) := by
  intro p b q h hp
  obtain ⟨⟨a, m⟩, hm, hrest⟩ := Option.bind_eq_some_iff.mp h
  obtain ⟨hanchors, ha⟩ := hr p a m hm hp
  exact hk a ha m b q hrest hanchors

theorem yields_get : Yields Position.WellAnchored (get : Read Position) := by
  intro p a q h hp
  cases h
  exact ⟨hp, hp⟩

theorem passes_set {p : Position} (h : p.WellAnchored) : Passes (set p : Read PUnit) := by
  intro m a q hr _
  cases hr
  exact ⟨h, trivial⟩

theorem passes_modify {f : Position → Position} (h : ∀ p, p.WellAnchored → (f p).WellAnchored) :
    Passes (modify f : Read PUnit) := by
  intro p a q hr hp
  cases hr
  exact ⟨h p hp, trivial⟩

theorem yields_ite {c : Prop} [Decidable c] {a b : Read α} (ha : c → Yields P a)
    (hb : ¬c → Yields P b) : Yields P (if c then a else b) := by
  split
  · next h => exact ha h
  · next h => exact hb h

theorem passes_require (b : Bool) : Passes (require b) :=
  yields_ite (fun _ => yields_pure trivial) fun _ => yields_fail

theorem passes_fuelOf : Passes fuelOf := yields_get.bind fun _ _ => yields_pure trivial

theorem passes_peek : Passes peek := yields_get.bind fun _ _ => yields_pure trivial

theorem passes_skip (n : Nat) : Passes (skip n) := passes_modify fun _ h => h.congr rfl

theorem passes_expect (c : Char) : Passes (expect c) :=
  passes_peek.bind fun _ _ => (passes_require _).bind fun _ _ => passes_skip 1

theorem passes_takeRun (t : Char → Bool) : Passes (takeRun t) :=
  yields_get.bind fun _ _ => (passes_skip _).bind fun _ _ => yields_pure trivial

theorem passes_blanks : Passes blanks :=
  yields_get.bind fun p hp =>
    Yields.bind (passes_set (hp.congr p.skipBlanks_anchors)) fun _ _ => yields_pure trivial

theorem passes_passLine : Passes passLine := by
  refine passes_modify fun p hp => ?_
  split
  · exact hp.congr rfl
  · exact hp.congr (Position.seekFrom_anchors _ _)

theorem passes_endLine : Passes endLine := by
  refine passes_blanks.bind fun spaced _ => passes_peek.bind fun c _ => ?_
  split
  · exact yields_pure trivial
  · exact passes_passLine
  · exact (passes_require spaced).bind fun _ _ => passes_passLine
  · exact yields_fail

theorem passes_toContent : Passes toContent := by
  refine passes_blanks.bind fun spaced _ => passes_peek.bind fun c _ => ?_
  split
  · exact yields_pure trivial
  · exact passes_passLine.bind fun _ _ => yields_pure trivial
  · exact (passes_require spaced).bind fun _ _ =>
      passes_passLine.bind fun _ _ => yields_pure trivial
  · exact yields_pure trivial

/-! ## Scalars -/

theorem passes_quotedFrom (quote : Char) (low fuel : Nat) (escaped : Bool) :
    Passes (quotedFrom quote low fuel escaped) := by
  induction fuel generalizing escaped with
  | zero => exact yields_fail
  | succ fuel ih =>
    rw [quotedFrom]
    refine yields_get.bind fun p hp => ?_
    split
    · exact yields_fail
    · exact (passes_require _).bind fun _ _ => Yields.bind (passes_set (hp.congr rfl)) fun _ _ =>
        (ih false).bind fun _ _ => yields_pure trivial
    · split
      · split
        · exact (passes_skip 2).bind fun _ _ => (ih false).bind fun _ _ => yields_pure trivial
        · exact (passes_skip 1).bind fun _ _ => yields_pure trivial
      · exact (passes_skip 1).bind fun _ _ => (ih _).bind fun _ _ => yields_pure trivial

theorem passes_quotedScalar (low : Nat) : Passes (quotedScalar low) := by
  refine passes_peek.bind fun _ _ => (passes_skip 1).bind fun _ _ => passes_fuelOf.bind fun _ _ =>
    (passes_quotedFrom _ low _ false).bind fun body _ => ?_
  split
  · split
    · exact yields_pure trivial
    · exact yields_fail
  · exact yields_pure trivial

theorem passes_plainLine (flow : Bool) : Passes (plainLine flow) :=
  yields_get.bind fun _ _ => (passes_skip _).bind fun _ _ => yields_pure trivial

theorem continuation?_anchors {low fuel n : Nat} {p q : Position}
    (h : continuation? low fuel p = some (n, q)) : q.anchors = p.anchors := by
  induction fuel generalizing p n with
  | zero => cases h
  | succ fuel ih =>
    rw [continuation?] at h
    dsimp only at h
    split at h
    · cases h
    · split at h
      · obtain ⟨⟨m, r⟩, hr, heq⟩ := Option.map_eq_some_iff.mp h
        cases heq
        exact (ih hr).trans rfl
      · cases h
    · split at h
      · cases h
      · cases h
        rfl

theorem passes_plainMore (flow : Bool) (low fuel : Nat) : Passes (plainMore flow low fuel) := by
  induction fuel with
  | zero => exact yields_pure trivial
  | succ fuel ih =>
    rw [plainMore]
    refine yields_get.bind fun p hp => ?_
    dsimp only
    split
    · exact yields_pure trivial
    · split
      · exact yields_pure trivial
      · next empty r hr =>
        split
        · exact yields_pure trivial
        · have hanchors : r.anchors = p.anchors :=
            (continuation?_anchors hr).trans p.skipBlanks_anchors
          exact (passes_set (hp.congr hanchors)).bind fun _ _ =>
            (passes_plainLine flow).bind fun _ _ => ih.bind fun _ _ => yields_pure trivial

theorem passes_plain (flow : Bool) (low : Nat) : Passes (plain flow low) :=
  (passes_plainLine flow).bind fun _ _ => (passes_require _).bind fun _ _ =>
    passes_fuelOf.bind fun _ _ => (passes_plainMore flow low _).bind fun _ _ => yields_pure trivial

theorem passes_blockLines (h : BlockHeader) (low : Nat) : Passes (blockLines h low) :=
  yields_get.bind fun _ hp => (passes_require _).bind fun _ _ =>
    Yields.bind (passes_set (hp.congr rfl)) fun _ _ => yields_pure trivial

theorem passes_blockScalar (low : Nat) : Passes (blockScalar low) := by
  refine passes_peek.bind fun folded _ => (passes_skip 1).bind fun _ _ =>
    (passes_takeRun _).bind fun marks _ => ?_
  split
  · exact yields_fail
  · next h _ =>
    refine passes_blanks.bind fun spaced _ => ?_
    extract_lets body
    have hbody : ∀ r, Passes (body r) := by
      intro r
      refine Yields.bind (passes_modify fun _ hp => hp.congr rfl) fun _ _ =>
        passes_peek.bind fun _ _ => yields_ite (fun _ => yields_pure trivial) fun _ => ?_
      refine Yields.bind (passes_modify fun _ hp => hp.congr rfl) fun _ _ =>
        (passes_blockLines h low).bind fun lines _ => ?_
      split
      · exact yields_fail
      · exact Yields.bind (passes_modify fun p hp => hp.congr (Position.seekFrom_anchors _ p))
          fun _ _ => yields_pure trivial
    refine passes_peek.bind fun c _ => ?_
    split
    · exact (passes_require spaced).bind fun r _ => hbody r
    · exact hbody ()
    · exact hbody ()
    · exact (yields_fail (P := fun _ => True)).bind fun r _ => hbody r

/-! ## Anchors -/

theorem passes_openAnchor (name : String) : Passes (openAnchor name) := by
  refine yields_get.bind fun p hp => (passes_set fun a ha v hv => ?_).bind fun _ _ =>
    yields_pure trivial
  rcases List.mem_cons.mp ha with rfl | hmem
  · cases hv
  · exact hp a hmem v hv

/-- A change of anchors that gives them no value but well-formed ones. -/
theorem passes_changeAnchors {f : Anchor → Anchor}
    (h : ∀ a v, (f a).value = some v → a.value = some v ∨ v.WellFormed) :
    Passes (modify fun p : Position => { p with anchors := p.anchors.map f }) := by
  refine passes_modify fun p hp a ha v hv => ?_
  obtain ⟨b, hb, rfl⟩ := List.mem_map.mp ha
  exact (h b v hv).elim (hp b hb v) id

theorem passes_closeAnchor (anchor : Option Nat) {value : Value} (h : value.WellFormed) :
    Passes (closeAnchor anchor value) := by
  cases anchor with
  | none => exact yields_pure trivial
  | some id =>
    refine passes_changeAnchors fun a v hv => ?_
    split at hv
    · cases hv
      exact .inr h
    · exact .inl hv

theorem yields_resolveAlias (name : String) : Yields Value.WellFormed (resolveAlias name) := by
  refine yields_get.bind fun p hp => ?_
  dsimp only
  split
  · exact yields_fail
  · next a ha =>
    refine (passes_require _).bind fun _ _ => (passes_changeAnchors fun b v hv => ?_).bind
      fun _ _ => ?_
    · split at hv
      · exact .inl hv
      · split at hv
        · exact .inl hv
        · exact .inl hv
    · split
      · exact yields_fail
      · next v hv => exact yields_pure (hp a (List.mem_of_find?_eq_some ha) v hv)

theorem yields_aliasValue : Yields Value.WellFormed aliasValue :=
  (passes_expect _).bind fun _ _ => (passes_takeRun _).bind fun _ _ =>
    (passes_require _).bind fun _ _ => yields_resolveAlias _

end Read
end Yaml
end ApiSync
