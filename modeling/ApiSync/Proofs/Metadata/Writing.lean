import ApiSync.Proofs.Metadata.Settling
/-!
# Writing along paths

A change at the end of a path of keys makes mappings on the way where there are none.  It is found
at the end of the path, it leaves what is found along every path apart from it, and on the way it
keeps the keys that were there, in their order.  After a series of changes to paths that are apart,
what is found at the end of each path is what the changes of that path make of it, in their order.

An entry for the parent is written only into a mapping that has one, so paths through that name are
left out of what is said about the paths that are written.
-/

namespace ApiSync

namespace Metadata

open Fields (Takes get? keys assign)
open Value (at?)

/-! ## What is found at the end of a path -/

def reach (v : Option Value) (path : List String) : Option Value := v.bind (at? · path)

theorem reach_nil (v : Option Value) : reach v [] = v := by
  cases v <;> rfl

theorem reach_cons (v : Option Value) (k : String) (rest : List String) :
    reach v (k :: rest) = reach (get? (mapOf v) k) rest := by
  cases v with
  | none => rfl
  | some w =>
    cases w with
    | map fields => rfl
    | _ => rfl

theorem reach_key (fields : Fields) (k : String) :
    reach (some (.map fields)) [k] = get? fields k := by
  rw [reach_cons, reach_nil]
  rfl

/-- Neither path leads through the end of the other. -/
def Apart (p q : List String) : Prop := ¬p <+: q ∧ ¬q <+: p

theorem apart_cons_cons {k : String} {p q : List String} :
    Apart (k :: p) (k :: q) ↔ Apart p q := by
  simp [Apart, List.cons_prefix_cons]

theorem eq_or_apart_of_length_eq {p q : List String} (h : p.length = q.length) :
    p = q ∨ Apart p q := by
  by_cases heq : p = q
  · exact .inl heq
  · exact .inr ⟨fun hle => heq (hle.eq_of_length h), fun hle => heq (hle.eq_of_length h.symm).symm⟩

/-! ## One change -/

/-- The change at the end of a path. -/
def writeTo : List String → (Option Value → Value) → Option Value → Value
  | [], change, v => change v
  | k :: rest, change, v =>
    .map (assign (mapOf v) k (writeTo rest change (get? (mapOf v) k)))

variable {path : List String} {change : Option Value → Value}

theorem reach_writeTo (h : Ambient.parentName ∉ path) (v : Option Value) :
    reach (some (writeTo path change v)) path = some (change (reach v path)) := by
  induction path generalizing v with
  | nil => rw [reach_nil, reach_nil]; rfl
  | cons k rest ih =>
    obtain ⟨hk, hrest⟩ := List.ne_and_not_mem_of_not_mem_cons h
    have ht : Takes (mapOf v) k := Fields.takes_of_ne hk.symm
    rw [reach_cons, reach_cons, ← ih hrest]
    exact congrArg (reach · rest) (Fields.get?_assign_self ht _)

theorem reach_writeTo_of_apart {p q : List String} (h : Apart p q) (v : Option Value) :
    reach (some (writeTo p change v)) q = reach v q := by
  induction p generalizing q v with
  | nil => exact absurd List.nil_prefix h.1
  | cons k rest ih =>
    cases q with
    | nil => exact absurd List.nil_prefix h.2
    | cons k' rest' =>
      rw [reach_cons, reach_cons]
      show reach (get? (assign (mapOf v) k _) k') rest' = _
      by_cases hk : k = k'
      · subst hk
        by_cases ht : Takes (mapOf v) k
        · rw [Fields.get?_assign_self ht, ih (apart_cons_cons.mp h)]
        · rw [Fields.assign_of_not_takes ht]
      · rw [Fields.get?_assign_of_ne _ hk]

theorem writeTo_append (p q : List String) (v : Option Value) :
    writeTo (p ++ q) change v = writeTo p (writeTo q change) v := by
  induction p generalizing v with
  | nil => rfl
  | cons k rest ih => rw [List.cons_append, writeTo, writeTo, ih]

/-- Two changes at the end of a path are one. -/
theorem writeTo_writeTo (path : List String) (change next : Option Value → Value)
    (v : Option Value) : writeTo path next (some (writeTo path change v)) =
      writeTo path (fun v => next (some (change v))) v := by
  induction path generalizing v with
  | nil => rfl
  | cons k rest ih =>
    refine congrArg Value.map ?_
    show assign (assign (mapOf v) k _) k (writeTo rest next (get? (assign (mapOf v) k _) k)) = _
    rw [Fields.assign_assign]
    by_cases ht : Takes (mapOf v) k
    · rw [Fields.get?_assign_self ht, ih]
    · rw [Fields.assign_of_not_takes ht, Fields.assign_of_not_takes ht]

/-- On the way a mapping is made, which keeps the keys that were there. -/
theorem exists_reach_writeTo {p q : List String} (hp : Ambient.parentName ∉ p) (hbegins : p <+: q)
    (hne : ¬q <+: p) (v : Option Value) :
    ∃ fields, reach (some (writeTo q change v)) p = some (.map fields) ∧
      (keys (mapOf (reach v p))).Sublist (keys fields) := by
  obtain ⟨more, rfl⟩ := hbegins
  cases more with
  | nil => exact absurd (by simp) hne
  | cons k rest =>
    rw [writeTo_append, reach_writeTo hp]
    exact ⟨_, rfl, Fields.keys_sublist_assign _ k _⟩

/-! ## Series of changes -/

structure Write where
  path : List String
  change : Option Value → Value

def Write.apply (w : Write) : Option Value → Value := writeTo w.path w.change

def writeAll (ws : List Write) (v : Option Value) : Option Value :=
  valueAfter (ws.map Write.apply) v

theorem writeAll_cons (w : Write) (ws : List Write) (v : Option Value) :
    writeAll (w :: ws) v = writeAll ws (some (w.apply v)) := rfl

theorem writeAll_append (ws more : List Write) (v : Option Value) :
    writeAll (ws ++ more) v = writeAll more (writeAll ws v) := by
  simp only [writeAll, valueAfter, List.map_append, List.foldl_append]

/-- The changes of one path take effect there in their order. -/
theorem reach_writeAll {ws : List Write} (hpath : Ambient.parentName ∉ path)
    (hws : ∀ w ∈ ws, w.path = path ∨ Apart w.path path) (v : Option Value) :
    reach (writeAll ws v) path =
      valueAfter ((ws.filter (·.path = path)).map Write.change) (reach v path) := by
  induction ws generalizing v with
  | nil => rfl
  | cons w ws ih =>
    obtain ⟨hw, hrest⟩ := List.forall_mem_cons.mp hws
    rw [writeAll_cons, ih hrest]
    rcases hw with heq | hapart
    · rw [List.filter_cons_of_pos (by simpa using heq), Write.apply, heq, reach_writeTo hpath]
      rfl
    · have hne : w.path ≠ path := fun heq => hapart.1 (heq ▸ List.prefix_rfl)
      rw [List.filter_cons_of_neg (by simpa using hne), Write.apply,
        reach_writeTo_of_apart hapart]

/-- Nothing but the ends of the paths was written, with mappings on the way. -/
structure WritesOnly (paths : List (List String)) (before after : Option Value) : Prop where
  elsewhere : ∀ path, (∀ p ∈ paths, Apart p path) → reach after path = reach before path
  /-- On the way to an end, and not behind another one, there is a mapping with the keys that were
  there. -/
  onTheWay : ∀ path, Ambient.parentName ∉ path → (∀ p ∈ paths, ¬p <+: path) →
    (∃ p ∈ paths, path <+: p) → ∃ fields, reach after path = some (.map fields) ∧
      (keys (mapOf (reach before path))).Sublist (keys fields)

namespace WritesOnly

theorem refl (v : Option Value) : WritesOnly [] v v where
  elsewhere _ _ := rfl
  onTheWay _ _ _ h := by
    obtain ⟨p, hp, -⟩ := h
    exact absurd hp List.not_mem_nil

theorem single (w : Write) (v : Option Value) : WritesOnly [w.path] v (some (w.apply v)) where
  elsewhere path h := reach_writeTo_of_apart (h w.path List.mem_cons_self) v
  onTheWay path hpath hbehind h := by
    obtain ⟨p, hp, hbegins⟩ := h
    obtain rfl := List.mem_singleton.mp hp
    exact exists_reach_writeTo hpath hbegins (hbehind _ hp) v

variable {paths more : List (List String)} {a b c : Option Value}

theorem trans (hab : WritesOnly paths a b) (hbc : WritesOnly more b c) :
    WritesOnly (paths ++ more) a c where
  elsewhere path h := by
    obtain ⟨hpaths, hmore⟩ := List.forall_mem_append.mp h
    rw [hbc.elsewhere path hmore, hab.elsewhere path hpaths]
  onTheWay path hpath hbehind h := by
    obtain ⟨hpaths, hmore⟩ := List.forall_mem_append.mp hbehind
    by_cases hnext : ∃ p ∈ more, path <+: p
    · obtain ⟨fields, hc, hkeys⟩ := hbc.onTheWay path hpath hmore hnext
      refine ⟨fields, hc, ?_⟩
      by_cases hfirst : ∃ p ∈ paths, path <+: p
      · obtain ⟨others, hb, hothers⟩ := hab.onTheWay path hpath hpaths hfirst
        rw [hb] at hkeys
        exact hothers.trans hkeys
      · rwa [hab.elsewhere path fun p hp => ⟨hpaths p hp, fun hle => hfirst ⟨p, hp, hle⟩⟩] at hkeys
    · have hfirst : ∃ p ∈ paths, path <+: p := by
        obtain ⟨p, hp, hle⟩ := h
        exact ⟨p, (List.mem_append.mp hp).resolve_right fun hm => hnext ⟨p, hm, hle⟩, hle⟩
      rw [hbc.elsewhere path fun p hp => ⟨hmore p hp, fun hle => hnext ⟨p, hp, hle⟩⟩]
      exact hab.onTheWay path hpath hpaths hfirst

theorem run (ws : List Write) (v : Option Value) :
    WritesOnly (ws.map Write.path) v (writeAll ws v) := by
  induction ws generalizing v with
  | nil => exact refl v
  | cons w ws ih => exact (single w v).trans (ih (some (w.apply v)))

end WritesOnly

/-! ## What the changes of one path come to -/

/-- The last of the values that are put in stays. -/
theorem valueAfter_put {α : Type} (g : α → Value) (xs : List α) (v : Option Value) :
    valueAfter (xs.map fun x _ => g x) v = (xs.getLast?.map g).or v := by
  induction xs generalizing v with
  | nil => rfl
  | cons x xs ih =>
    rw [List.map_cons]
    show valueAfter (xs.map fun x _ => g x) (some (g x)) = _
    rw [ih, List.getLast?_cons]
    cases xs.getLast? <;> rfl

/-- What is filled in stands where nothing stood. -/
theorem valueAfter_fill {hs : List (Option Value → Value)} {u : Value} (hne : hs ≠ [])
    (h : ∀ g ∈ hs, g = fun current => current.getD u) (v : Option Value) :
    valueAfter hs v = v.or (some u) := by
  cases hs with
  | nil => exact absurd rfl hne
  | cons g rest =>
    have hfilling : ∀ f ∈ rest, Filling f := fun f hf => ⟨u, h f (List.mem_cons_of_mem g hf)⟩
    have hfirst : valueAfter (g :: rest) v = some (g v) := valueAfter_filling hfilling (g v)
    rw [hfirst, h g List.mem_cons_self]
    cases v <;> rfl

/-- What is appended follows what stood there, in order. -/
theorem valueAfter_append {α : Type} (g : α → Value) {xs : List α} (hne : xs ≠ [])
    (v : Option Value) :
    valueAfter (xs.map fun x current => .list (itemsOf current ++ [g x])) v =
      some (.list (itemsOf v ++ xs.map g)) := by
  induction xs generalizing v with
  | nil => exact absurd rfl hne
  | cons x xs ih =>
    cases xs with
    | nil => rfl
    | cons y ys =>
      have hrest := ih (List.cons_ne_nil y ys) (some (.list (itemsOf v ++ [g x])))
      have hitems : itemsOf (some (.list (itemsOf v ++ [g x]))) = itemsOf v ++ [g x] := rfl
      rw [hitems, List.append_assoc] at hrest
      exact hrest

end Metadata
end ApiSync
