import ApiSync.Handler.Scan
/-!
# Scans one after the other

What a scan is put together from is read off its parts: a part that fails ends it, and one that
does not adds what it has found to what came before.
-/

namespace ApiSync
namespace Handler
namespace Scan

variable {a : Scan}

theorem append_of_failure {f : Failure} (h : a.failure = some f) (b : Scan) : a ++ b = a := by
  show append a b = a
  rw [append, h]
  rfl

theorem append_of_success (h : a.failure = none) (b : Scan) :
    a ++ b = ⟨a.endpoints ++ b.endpoints, a.ignored ++ b.ignored, a.events ++ b.events,
      b.failure⟩ := by
  show append a b = _
  rw [append, h]
  rfl

theorem append_failure_eq_none {b : Scan} :
    (a ++ b).failure = none ↔ a.failure = none ∧ b.failure = none := by
  cases hf : a.failure with
  | some f => simp [append_of_failure hf, hf]
  | none => simp [append_of_success hf]

theorem join_cons (s : Scan) (scans : List Scan) : join (s :: scans) = s ++ join scans := rfl

theorem join_failure_eq_none {α : Type} {xs : List α} {f : α → Scan} :
    (join (xs.map f)).failure = none ↔ ∀ x ∈ xs, (f x).failure = none := by
  induction xs with
  | nil => simp [join, empty]
  | cons x xs ih => rw [List.map_cons, join_cons, append_failure_eq_none, ih, List.forall_mem_cons]

/-- Unless one of them fails, scans after one another find what each of them finds. -/
theorem join_of_success {α : Type} {xs : List α} {f : α → Scan}
    (h : ∀ x ∈ xs, (f x).failure = none) :
    join (xs.map f) = ⟨xs.flatMap fun x => (f x).endpoints, xs.flatMap fun x => (f x).ignored,
      xs.flatMap fun x => (f x).events, none⟩ := by
  induction xs with
  | nil => rfl
  | cons x xs ih =>
    obtain ⟨hx, hxs⟩ := List.forall_mem_cons.mp h
    rw [List.map_cons, join_cons, append_of_success hx, ih hxs]
    rfl

/-- A scan that needs a value and does not fail has read it. -/
theorem exists_of_withResult {α : Type} {result : Except Failure α} {scan : α → Scan}
    (h : (withResult result scan).failure = none) : ∃ v, result = .ok v := by
  cases result with
  | error f => cases h
  | ok v => exact ⟨v, rfl⟩

end Scan
end Handler
end ApiSync
