import ApiSync.Proofs.Model.Contributions
/-!
# Metadata laid over a schema

What the schema of an attribute says under a key after both layers have been laid over it.  A text
for the description and a list for the enumeration are taken from the block.  Otherwise the schema
comes first, the block counts where the schema has no entry, and the decorator where neither says
more than null.  Laying both over the result again leaves it as it is.

Names that every mapping answers to are left out: neither layer writes them.
-/

namespace ApiSync
namespace Schema

open Fields (get? has keys)

/-- What metadata says under a key. -/
def entryOf (metadata : Option Fields) (k : String) : Option Value := metadata.bind (get? · k)

/-- The first entry that is not null, or null if there are entries but all of them are. -/
def firstGiven (entries : List (Option Value)) : Option Value :=
  let given := entries.filterMap id
  (given.find? (!·.isNull)).or given.head?

/-- What a block writes over the schema: a text for the description, a list for the enumeration. -/
def override? (block : Option Fields) (k : String) : Option Value :=
  if k = "description" then (entryOf block k).filter (·.asStr?.isSome)
  else if k = "enum" then (entryOf block k).filter (·.asList?.isSome)
  else none

/-! ## The first entry that says something -/

theorem firstGiven_none (a : Option Value) : firstGiven [a, none] = a := by
  cases a with
  | none => rfl
  | some v => cases v <;> rfl

theorem firstGiven_of_not_null {v : Value} (h : v.isNull = false) (rest : List (Option Value)) :
    firstGiven (some v :: rest) = some v := by
  simp [firstGiven, h]

/-- An entry behind one that is there counts as missing. -/
theorem firstGiven_or (a b c : Option Value) :
    firstGiven [a.or b, c] = firstGiven [a, if a.isSome then none else b, c] := by
  cases a <;> rfl

theorem firstGiven_ne_none {entries : List (Option Value)} {v : Value} (h : some v ∈ entries) :
    firstGiven entries ≠ none := by
  have hmem : v ∈ entries.filterMap id := List.mem_filterMap.mpr ⟨some v, h, rfl⟩
  obtain ⟨first, rest, hgiven⟩ := List.exists_cons_of_ne_nil (List.ne_nil_of_mem hmem)
  rw [firstGiven, hgiven, Ne, Option.or_eq_none_iff]
  exact fun hnone => nomatch hnone.2

/-! ## The block -/

/-- The schema with the description of the block. -/
def describe (schema block : Fields) : Fields :=
  match get? block "description" with
  | some (.str d) => Fields.set schema "description" (.str d)
  | _ => schema

/-- The schema with the enumeration of the block. -/
def enumerate (schema block : Fields) : Fields :=
  match get? block "enum" with
  | some (.list items) => Fields.set schema "enum" (.list items)
  | _ => schema

theorem withBlock_some (schema block : Fields) :
    withBlock schema (some block) = fillAbsent (enumerate (describe schema block) block) block :=
  rfl

theorem override?_description (block : Option Fields) :
    override? block "description" = (entryOf block "description").filter (·.asStr?.isSome) := rfl

theorem override?_enum (block : Option Fields) :
    override? block "enum" = (entryOf block "enum").filter (·.asList?.isSome) := rfl

theorem override?_of_ne {block : Option Fields} {k : String} (hd : k ≠ "description")
    (he : k ≠ "enum") : override? block k = none := by
  rw [override?, if_neg hd, if_neg he]

theorem describe_eq (schema block : Fields) :
    describe schema block = ((override? (some block) "description").map
      (Fields.set schema "description")).getD schema := by
  rw [describe, override?_description, entryOf, Option.bind_some]
  cases get? block "description" with
  | none => rfl
  | some v => cases v <;> rfl

theorem enumerate_eq (schema block : Fields) :
    enumerate schema block = ((override? (some block) "enum").map
      (Fields.set schema "enum")).getD schema := by
  rw [enumerate, override?_enum, entryOf, Option.bind_some]
  cases get? block "enum" with
  | none => rfl
  | some v => cases v <;> rfl

theorem get?_overridden (schema block : Fields) (k : String) :
    get? (enumerate (describe schema block) block) k =
      (override? (some block) k).or (get? schema k) := by
  have hset (name : String) (fields : Fields) (v : Option Value) :
      get? ((v.map (Fields.set fields name)).getD fields) k =
        (if name = k then v else none).or (get? fields k) := by
    cases v with
    | none => simp
    | some v => by_cases hk : name = k <;> simp [Fields.get?_set, hk]
  rw [enumerate_eq, hset, describe_eq, hset]
  by_cases hd : "description" = k
  · subst hd
    rw [if_neg (by decide), if_pos rfl, Option.none_or]
  · rw [if_neg hd, Option.none_or]
    by_cases he : "enum" = k
    · rw [if_pos he, he]
    · rw [if_neg he, override?_of_ne (Ne.symm hd) (Ne.symm he)]

theorem get?_withBlock (schema : Fields) (block : Option Fields) {k : String}
    (hk : Ambient.isAmbient k = false) :
    get? (withBlock schema block) k =
      (override? block k).or ((get? schema k).or (entryOf block k)) := by
  cases block with
  | none =>
    have hnone : override? none k = none := by
      rw [override?]
      split
      · rfl
      · split <;> rfl
    rw [hnone, entryOf, Option.bind_none, Option.or_none, Option.none_or]
    rfl
  | some block =>
    rw [withBlock_some, get?_fillAbsent _ _ hk, get?_overridden, Option.or_assoc]
    rfl

theorem fillAbsent_eq_self {schema metadata : Fields}
    (h : ∀ e ∈ metadata, Fields.answers schema e.1 = true) : fillAbsent schema metadata = schema := by
  refine List.foldlRecOn (motive := (· = schema)) metadata _ rfl fun s hs e he => ?_
  rw [hs, if_pos (h e he)]

/-- A block changes nothing in a schema that has what it writes over and answers to its keys. -/
theorem withBlock_eq_self {schema block : Fields}
    (hover : ∀ k v, override? (some block) k = some v → get? schema k = some v)
    (hkeys : ∀ e ∈ block, Fields.answers schema e.1 = true) :
    withBlock schema (some block) = schema := by
  have hset (name : String) :
      ((override? (some block) name).map (Fields.set schema name)).getD schema = schema := by
    cases hv : override? (some block) name with
    | none => rfl
    | some v => exact Fields.set_of_get? (hover name v hv)
  rw [withBlock_some, describe_eq, hset, enumerate_eq, hset, fillAbsent_eq_self hkeys]

/-! ## The decorator -/

/-- Writes one entry of a decorator if its key is open. -/
def addOpen (schema : Fields) (e : String × Value) : Fields :=
  if e.1 ≠ "hint" && isOpen schema e.1 then Fields.set schema e.1 e.2 else schema

theorem withDecorator_some (schema metadata : Fields) :
    withDecorator schema (some metadata) = metadata.foldl addOpen schema := rfl

theorem get?_addOpen (schema : Fields) (e : String × Value) (k : String) :
    get? (addOpen schema e) k =
      if e.1 = k ∧ k ≠ "hint" ∧ isOpen schema k = true then some e.2 else get? schema k := by
  rw [addOpen]
  by_cases hopen : e.1 ≠ "hint" ∧ isOpen schema e.1 = true
  · rw [if_pos (by simpa using hopen), Fields.get?_set]
    by_cases hk : e.1 = k
    · rw [if_pos hk, if_pos ⟨hk, hk ▸ hopen⟩]
    · rw [if_neg hk, if_neg fun h => hk h.1]
  · rw [if_neg (by simpa using hopen), if_neg]
    rintro ⟨rfl, h⟩
    exact hopen h

/-- Whether a key is open depends on what is read under it. -/
theorem isOpen_congr {a b : Fields} {k : String} (h : get? a k = get? b k) :
    isOpen a k = isOpen b k := by
  rw [isOpen, isOpen, h]

theorem get?_withDecorator {metadata : Fields} (hd : (keys metadata).Nodup) (schema : Fields)
    (k : String) :
    get? (withDecorator schema (some metadata)) k =
      if k ≠ "hint" ∧ isOpen schema k = true then (get? metadata k).or (get? schema k)
      else get? schema k := by
  rw [withDecorator_some]
  induction metadata generalizing schema with
  | nil => simp [Fields.get?_nil]
  | cons e rest ih =>
    obtain ⟨hnew, hrest⟩ := List.nodup_cons.mp hd
    rw [List.foldl_cons, ih hrest, Fields.get?_cons]
    by_cases hk : e.1 = k
    · have hnone : get? rest k = none := Fields.get?_eq_none_iff.mpr (hk ▸ hnew)
      rw [hnone, Option.none_or, ite_self, get?_addOpen, if_pos hk, Option.some_or]
      simp only [hk, true_and]
    · have hsame : get? (addOpen schema e) k = get? schema k := by
        rw [get?_addOpen, if_neg fun h => hk h.1]
      rw [isOpen_congr hsame, hsame, if_neg hk]

/-- For the other names a decorator supplies what is missing or null. -/
theorem get?_withDecorator_eq_firstGiven {metadata : Option Fields}
    (hd : ∀ m, metadata = some m → (keys m).Nodup) (schema : Fields) {k : String}
    (hk : Ambient.isAmbient k = false) :
    get? (withDecorator schema metadata) k =
      firstGiven [get? schema k, if k = "hint" then none else entryOf metadata k] := by
  cases metadata with
  | none =>
    rw [entryOf, Option.bind_none, ite_self, firstGiven_none]
    rfl
  | some m =>
    rw [get?_withDecorator (hd m rfl), entryOf, Option.bind_some]
    by_cases hhint : k = "hint"
    · rw [if_neg fun h => h.1 hhint, if_pos hhint, firstGiven_none]
    · rw [if_neg hhint, isOpen]
      cases hget : get? schema k with
      | none =>
        rw [if_pos ⟨hhint, by rw [hk]; rfl⟩, Option.or_none]
        cases get? m k with
        | none => rfl
        | some w => cases w <;> rfl
      | some v =>
        cases v with
        | null =>
          rw [if_pos ⟨hhint, rfl⟩]
          cases get? m k with
          | none => rfl
          | some w => cases w <;> rfl
        | _ => rw [if_neg fun h => Bool.false_ne_true h.2, firstGiven_of_not_null rfl]

theorem withDecorator_eq_self {schema metadata : Fields}
    (h : ∀ e ∈ metadata, e.1 ≠ "hint" → isOpen schema e.1 = true →
      get? schema e.1 = some e.2) : withDecorator schema (some metadata) = schema := by
  refine List.foldlRecOn (motive := (· = schema)) metadata _ rfl fun s hs e he => ?_
  rw [hs]
  split
  · next hopen =>
    have hboth : e.1 ≠ "hint" ∧ isOpen schema e.1 = true := by simpa using hopen
    exact Fields.set_of_get? (h e he hboth.1 hboth.2)
  · rfl

/-- What a decorator could still write is there already. -/
theorem withDecorator_withDecorator {metadata : Fields} (hd : (keys metadata).Nodup)
    (schema : Fields) :
    withDecorator (withDecorator schema (some metadata)) (some metadata) =
      withDecorator schema (some metadata) := by
  refine withDecorator_eq_self fun e he hhint hopen => ?_
  have hget := get?_withDecorator hd schema e.1
  by_cases hbefore : isOpen schema e.1 = true
  · rw [hget, if_pos ⟨hhint, hbefore⟩, Fields.get?_of_mem hd he, Option.some_or]
  · rw [if_neg fun h => hbefore h.2] at hget
    exact absurd (isOpen_congr hget ▸ hopen) hbefore

/-! ## Both layers -/

/-- The schema with the metadata of the block and then of the decorator over it. -/
def layered (schema : Fields) (block decorator : Option Fields) : Fields :=
  withDecorator (withBlock schema block) decorator

theorem override?_not_null {block : Option Fields} {k : String} {v : Value}
    (h : override? block k = some v) : v.isNull = false := by
  rw [override?] at h
  split at h
  · have htext := (Option.filter_eq_some_iff.mp h).2
    cases v with
    | null => cases htext
    | _ => rfl
  · split at h
    · have hlist := (Option.filter_eq_some_iff.mp h).2
      cases v with
      | null => cases hlist
      | _ => rfl
    · cases h

theorem get?_layered (schema : Fields) (block : Option Fields) {decorator : Option Fields}
    (hd : ∀ m, decorator = some m → (keys m).Nodup) {k : String}
    (hk : Ambient.isAmbient k = false) :
    get? (layered schema block decorator) k =
      (override? block k).or (firstGiven [get? schema k,
        if has schema k then none else entryOf block k,
        if k = "hint" then none else entryOf decorator k]) := by
  rw [layered, get?_withDecorator_eq_firstGiven hd _ hk, get?_withBlock schema block hk]
  cases hover : override? block k with
  | some v => rw [Option.some_or, Option.some_or, firstGiven_of_not_null (override?_not_null hover)]
  | none => rw [Option.none_or, Option.none_or, firstGiven_or, Fields.has_eq_isSome]

theorem isAmbient_of_override? {block : Option Fields} {k : String} {v : Value}
    (h : override? block k = some v) : Ambient.isAmbient k = false := by
  by_cases hd : k = "description"
  · rw [hd]
    decide
  · by_cases he : k = "enum"
    · rw [he]
      decide
    · rw [override?_of_ne hd he] at h
      cases h

/-- What the schema or the block has an entry for, the result has one for. -/
theorem has_layered {schema : Fields} {block decorator : Option Fields}
    (hd : ∀ m, decorator = some m → (keys m).Nodup) {k : String}
    (hk : Ambient.isAmbient k = false) (h : (entryOf block k).isSome = true) :
    has (layered schema block decorator) k = true := by
  rw [Fields.has_eq_isSome, Option.isSome_iff_ne_none, get?_layered schema block hd hk, Ne,
    Option.or_eq_none_iff]
  rintro ⟨-, hnone⟩
  rw [Fields.has_eq_isSome] at hnone
  cases hget : get? schema k with
  | some v => exact firstGiven_ne_none (by rw [hget]; exact List.mem_cons_self) hnone
  | none =>
    obtain ⟨v, hv⟩ := Option.isSome_iff_exists.mp h
    refine firstGiven_ne_none (v := v) ?_ hnone
    simp [hget, hv]

theorem layered_layered (schema : Fields) (block : Option Fields) {decorator : Option Fields}
    (hd : ∀ m, decorator = some m → (keys m).Nodup) :
    layered (layered schema block decorator) block decorator = layered schema block decorator := by
  have hblock : withBlock (layered schema block decorator) block =
      layered schema block decorator := by
    cases block with
    | none => rfl
    | some b =>
      refine withBlock_eq_self (fun k v hover => ?_) fun e he => ?_
      · rw [get?_layered schema (some b) hd (isAmbient_of_override? hover), hover, Option.some_or]
      · by_cases hk : Ambient.isAmbient e.1 = true
        · rw [Fields.answers, hk, Bool.or_true]
        · have hsome : (entryOf (some b) e.1).isSome = true := by
            rw [entryOf, Option.bind_some, ← Fields.has_eq_isSome, ← Fields.mem_keys_iff_has]
            exact List.mem_map_of_mem he
          rw [Fields.answers, has_layered hd (by simpa using hk) hsome, Bool.true_or]
  rw [layered, hblock]
  cases decorator with
  | none => rfl
  | some d => exact withDecorator_withDecorator (hd d rfl) (withBlock schema block)

/-- The precedence of the layers, key by key: what the block writes over the schema, then the first
of the schema, the block in its gaps and the decorator to say something.  A hint is not written.
Laying both over the result changes nothing. -/
theorem layered_precedence (schema : Fields) (block decorator : Option Fields)
    (hd : ∀ m, decorator = some m → (keys m).Nodup) :
    (∀ k, Ambient.isAmbient k = false →
      get? (layered schema block decorator) k =
        (override? block k).or (firstGiven [get? schema k,
          if has schema k then none else entryOf block k,
          if k = "hint" then none else entryOf decorator k])) ∧
      layered (layered schema block decorator) block decorator =
        layered schema block decorator :=
  ⟨fun _ hk => get?_layered schema block hd hk, layered_layered schema block hd⟩

/-- A schema, a block and a decorator that differ in what they leave out and where they say null. -/
def inferredColor : Fields :=
  [("type", .str "string"), ("description", .null), ("example", .null)]

def colorBlock : Fields :=
  [("description", .str "A color"), ("enum", .str "red"), ("example", .str "red"),
    ("format", .null)]

def colorDecorator : Fields :=
  [("description", .str "Color"), ("enum", .list [.str "red"]), ("example", .str "blue"),
    ("format", .str "hex"), ("hint", .str "int")]

theorem layered_precedence_of_color :
    (∀ m, some colorDecorator = some m → (keys m).Nodup) ∧
      (["type", "description", "enum", "example", "format", "hint"].map fun k =>
          (get? (layered inferredColor (some colorBlock) (some colorDecorator)) k).bind
            Value.asStr?) =
        [some "string", some "A color", some "red", some "blue", some "hex", none] := by
  have hd : ∀ m, some colorDecorator = some m → (keys m).Nodup := by
    intro m hm
    rw [← Option.some.inj hm]
    decide
  obtain ⟨hentry, -⟩ := layered_precedence inferredColor (some colorBlock) (some colorDecorator) hd
  refine ⟨hd, ?_⟩
  simp only [List.map_cons, List.map_nil]
  rw [hentry "type" (by decide), hentry "description" (by decide), hentry "enum" (by decide),
    hentry "example" (by decide), hentry "format" (by decide), hentry "hint" (by decide)]
  rfl

end Schema
end ApiSync
