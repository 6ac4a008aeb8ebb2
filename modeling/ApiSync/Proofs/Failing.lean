import ApiSync.Failure
/-!
# Steps that may fail

A chain of steps succeeds exactly when each of them does.  `Gives` says what a step that succeeds
has for a result, and `Needs` what it takes for a step to succeed if there is only one way to
fail.  Both are put together along the chain.
-/

namespace ApiSync

variable {ε α β σ : Type}

theorem bind_eq_ok {x : Except ε α} {f : α → Except ε β} {b : β} :
    x >>= f = .ok b ↔ ∃ a, x = .ok a ∧ f a = .ok b := by
  cases x with
  | error e => simp [bind, Except.bind]
  | ok a => simp [bind, Except.bind]

theorem pure_eq_ok {a b : α} : (pure a : Except ε α) = .ok b ↔ a = b := by
  simp [pure, Except.pure]

theorem mapM_cons_eq_ok {f : α → Except ε β} {x : α} {xs : List α} {ys : List β} :
    (x :: xs).mapM f = .ok ys ↔ ∃ z zs, f x = .ok z ∧ xs.mapM f = .ok zs ∧ z :: zs = ys := by
  simp only [List.mapM_cons, bind_eq_ok, pure_eq_ok, exists_and_left]

theorem mapM_eq_ok_map {f : α → Except ε β} {g : α → β} {xs : List α}
    (h : ∀ x ∈ xs, f x = .ok (g x)) : xs.mapM f = .ok (xs.map g) := by
  induction xs with
  | nil => rfl
  | cons x xs ih =>
    obtain ⟨hx, hxs⟩ := List.forall_mem_cons.mp h
    exact mapM_cons_eq_ok.mpr ⟨g x, xs.map g, hx, ih hxs, rfl⟩

theorem mapM_append_eq_ok {f : α → Except ε β} {xs xs' : List α} {ys : List β} :
    (xs ++ xs').mapM f = .ok ys ↔
      ∃ zs zs', xs.mapM f = .ok zs ∧ xs'.mapM f = .ok zs' ∧ zs ++ zs' = ys := by
  simp only [List.mapM_append, bind_eq_ok, pure_eq_ok, exists_and_left]

/-- Unless the step fails its result has the property. -/
def Gives (x : Except ε α) (P : α → Prop) : Prop := ∀ a, x = .ok a → P a

section Gives

variable {P : α → Prop} {Q : β → Prop}

theorem gives_pure {a : α} (h : P a) : Gives (pure a : Except ε α) P := fun _ hb =>
  pure_eq_ok.mp hb ▸ h

theorem Gives.bind {x : Except ε α} {f : α → Except ε β} (hx : Gives x P)
    (hf : ∀ a, P a → Gives (f a) Q) : Gives (x >>= f) Q := by
  intro b hb
  obtain ⟨a, ha, hrest⟩ := bind_eq_ok.mp hb
  exact hf a (hx a ha) b hrest

/-- The result of a step as it is. -/
theorem gives_self (x : Except ε α) : Gives x (x = .ok ·) := fun _ h => h

/-- What a run of steps has at the end, if each step passes it on. -/
theorem gives_foldlM {f : σ → α → Except ε σ} {P : σ → Prop} {xs : List α} {s : σ} (hs : P s)
    (hstep : ∀ t x, x ∈ xs → P t → Gives (f t x) P) : Gives (xs.foldlM f s) P := by
  induction xs generalizing s with
  | nil => exact gives_pure hs
  | cons x xs ih =>
    rw [List.foldlM_cons]
    exact (hstep s x List.mem_cons_self hs).bind fun t ht =>
      ih ht fun u y hy => hstep u y (List.mem_cons_of_mem x hy)

end Gives

/-- The step succeeds if the condition holds, and fails in the given way if it does not. -/
structure Needs (e : ε) (P : Prop) (x : Except ε α) : Prop where
  succeeds : P → ∃ a, x = .ok a
  fails : ¬P → x = .error e

section Needs

variable {e : ε} {P Q : Prop}

theorem needs_pure (a : α) : Needs e True (pure a : Except ε α) :=
  ⟨fun _ => ⟨a, rfl⟩, fun h => absurd trivial h⟩

theorem needs_throw : Needs e False (throw e : Except ε α) := ⟨False.elim, fun _ => rfl⟩

theorem Needs.congr {x : Except ε α} (h : Needs e P x) (hPQ : P ↔ Q) : Needs e Q x :=
  ⟨fun hq => h.succeeds (hPQ.mpr hq), fun hq => h.fails fun hp => hq (hPQ.mp hp)⟩

theorem Needs.holds {x : Except ε α} (h : Needs e P x) {a : α} (ha : x = .ok a) : P := by
  refine Classical.byContradiction fun hp => ?_
  rw [h.fails hp] at ha
  cases ha

theorem Needs.eq_of_error {x : Except ε α} (h : Needs e P x) {f : ε} (hf : x = .error f) :
    f = e := by
  by_cases hp : P
  · obtain ⟨a, ha⟩ := h.succeeds hp
    rw [ha] at hf
    cases hf
  · rw [h.fails hp] at hf
    exact (Except.error.inj hf).symm

theorem Needs.bind {x : Except ε α} {f : α → Except ε β} (hx : Needs e P x)
    (hf : ∀ a, x = .ok a → Needs e Q (f a)) : Needs e (P ∧ Q) (x >>= f) := by
  by_cases hp : P
  · obtain ⟨a, ha⟩ := hx.succeeds hp
    have hrest := hf a ha
    rw [ha]
    exact ⟨fun h => hrest.succeeds h.2, fun h => hrest.fails fun hq => h ⟨hp, hq⟩⟩
  · rw [hx.fails hp]
    exact ⟨fun h => absurd h.1 hp, fun _ => rfl⟩

theorem Needs.map {x : Except ε α} (hx : Needs e P x) (f : α → β) : Needs e P (f <$> x) := by
  constructor
  · intro hp
    obtain ⟨a, ha⟩ := hx.succeeds hp
    exact ⟨f a, by rw [ha]; rfl⟩
  · intro hp
    rw [hx.fails hp]
    rfl

/-- A step whose result is only passed on. -/
theorem Needs.bind_pure {x : Except ε α} (hx : Needs e P x) (f : α → β) :
    Needs e P (x >>= fun a => pure (f a)) :=
  (hx.bind fun a _ => needs_pure (f a)).congr (and_iff_left trivial)

theorem needs_mapM {f : α → Except ε β} {P : α → Prop} (h : ∀ x, Needs e (P x) (f x))
    (xs : List α) : Needs e (∀ x ∈ xs, P x) (xs.mapM f) := by
  induction xs with
  | nil => exact (needs_pure []).congr (by simp)
  | cons x xs ih =>
    rw [List.mapM_cons]
    refine ((h x).bind fun y _ => ih.bind_pure fun ys => y :: ys).congr ?_
    rw [List.forall_mem_cons]

/-- A run of steps whose success does not hang on the state that they find. -/
theorem needs_foldlM {f : σ → α → Except ε σ} {P : α → Prop} (h : ∀ s x, Needs e (P x) (f s x))
    (xs : List α) (s : σ) : Needs e (∀ x ∈ xs, P x) (xs.foldlM f s) := by
  induction xs generalizing s with
  | nil => exact (needs_pure s).congr (by simp)
  | cons x xs ih =>
    rw [List.foldlM_cons]
    refine ((h s x).bind fun t _ => ih t).congr ?_
    rw [List.forall_mem_cons]

/-- If the step fails, it does so in the given way. -/
def FailsAs (e : ε) (x : Except ε α) : Prop := ∀ f, x = .error f → f = e

theorem failsAs_pure (a : α) : FailsAs e (pure a : Except ε α) := nofun

theorem failsAs_throw : FailsAs e (throw e : Except ε α) := fun _ hf => (Except.error.inj hf).symm

theorem FailsAs.bind {x : Except ε α} {f : α → Except ε β} (hx : FailsAs e x)
    (hf : ∀ a, FailsAs e (f a)) : FailsAs e (x >>= f) := by
  cases x with
  | error g =>
    intro k hk
    obtain rfl := Except.error.inj hk
    exact hx g rfl
  | ok a => exact hf a

/-- A run that goes on behind a part of it. -/
theorem foldlM_append_of_ok {f : σ → α → Except ε σ} {xs : List α} {s t : σ}
    (h : xs.foldlM f s = .ok t) (more : List α) : (xs ++ more).foldlM f s = more.foldlM f t := by
  rw [List.foldlM_append, h]
  rfl

theorem failsAs_foldlM {f : σ → α → Except ε σ} (h : ∀ s x, FailsAs e (f s x)) (xs : List α)
    (s : σ) : FailsAs e (xs.foldlM f s) := by
  induction xs generalizing s with
  | nil => exact failsAs_pure s
  | cons x xs ih =>
    rw [List.foldlM_cons]
    exact (h s x).bind ih

theorem FailsAs.needs {x : Except ε α} (h : FailsAs e x) : Needs e (∃ a, x = .ok a) x := by
  refine ⟨id, fun hnot => ?_⟩
  cases x with
  | error f => rw [h f rfl]
  | ok a => exact absurd ⟨a, rfl⟩ hnot

end Needs

end ApiSync
