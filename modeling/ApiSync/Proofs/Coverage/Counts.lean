import Mathlib.Data.List.Induction
import ApiSync.Coverage
import ApiSync.Proofs.Fields
import ApiSync.Proofs.Number.Share
/-!
# Coverage counts add up

The endpoints are gone through once, and every count and table of the summary grows on the way.
What a count has grown to is read off the list of records alone, so the counts agree with each
other and with the sums over the tables, and the order of the endpoints makes no difference to any
number.
-/

namespace ApiSync

namespace Fields

section Sum

variable {α : Type} {fields : List (String × α)} {k : String} {v : α}

/-- A quantity of the values, summed over the entries. -/
def sumOf (f : α → Nat) (fields : List (String × α)) : Nat := (fields.map fun e => f e.2).sum

theorem sumOf_cons (f : α → Nat) (e : String × α) (fields : List (String × α)) :
    sumOf f (e :: fields) = f e.2 + sumOf f fields := by
  rw [sumOf, List.map_cons, List.sum_cons, sumOf]

theorem sumOf_perm (f : α → Nat) {a b : List (String × α)} (h : a.Perm b) :
    sumOf f a = sumOf f b :=
  (h.map _).sum_nat

theorem sumOf_replace (f : α → Nat) {old : α} (h : get? fields k = some old) :
    sumOf f (replace k v fields) + f old = sumOf f fields + f v := by
  induction fields with
  | nil => cases h
  | cons e rest ih =>
    rw [get?_cons] at h
    by_cases hk : e.1 = k
    · rw [if_pos hk] at h
      have hold : e.2 = old := Option.some.inj h
      rw [replace, if_pos hk, sumOf_cons, sumOf_cons, hold]
      show f v + sumOf f rest + f old = _
      omega
    · rw [if_neg hk] at h
      have hrest := ih h
      rw [replace, if_neg hk, sumOf_cons, sumOf_cons]
      omega

/-- Setting an entry adds its quantity and takes away that of the entry that stood there. -/
theorem sumOf_set (f : α → Nat) (fields : List (String × α)) (k : String) (v : α) :
    sumOf f (set fields k v) + ((get? fields k).map f).getD 0 = sumOf f fields + f v := by
  rw [set, has_eq_isSome]
  cases hold : get? fields k with
  | some old => exact sumOf_replace f hold
  | none =>
    show sumOf f (place k v fields) + 0 = _
    rw [sumOf_perm f (place_perm k v fields), sumOf_cons, Nat.add_zero, Nat.add_comm]

end Sum

end Fields

namespace Coverage

open Fields

/-! ## Rates -/

theorem isShare_rate {count total empty : Nat} (h : count ≤ total) (hempty : empty ≤ 1) :
    (rate count total empty).IsShare := by
  rw [rate]
  split
  · exact Number.isShare_ofRatio hempty
  · exact Number.isShare_ofRatio h

/-! ## Counts

A count starts at zero and grows by the same amount for equal records, wherever these stand. -/

namespace Tally

variable {records : List Record}

theorem ofRecords_concat (records : List Record) (r : Record) :
    ofRecords (records ++ [r]) = (ofRecords records).add r := by
  rw [ofRecords, List.foldl_append]
  rfl

/-- A count that grows by one for each record with a property is the number of these records. -/
theorem count_ofRecords (count : Tally → Nat) (p : Record → Bool) (hempty : count empty = 0)
    (hadd : ∀ t r, count (t.add r) = count t + (p r).toNat) (records : List Record) :
    count (ofRecords records) = records.countP p := by
  induction records using List.reverseRecOn with
  | nil => exact hempty
  | append_singleton records r ih =>
    rw [ofRecords_concat, hadd, ih, List.countP_append, List.countP_singleton]
    cases p r <;> rfl

theorem withBlock_ofRecords (records : List Record) :
    (ofRecords records).withBlock = records.countP (·.hasBlock) :=
  count_ofRecords _ _ rfl (fun _ _ => rfl) records

theorem withDecorators_ofRecords (records : List Record) :
    (ofRecords records).withDecorators = records.countP (·.hasDecorators) :=
  count_ofRecords _ _ rfl (fun _ _ => rfl) records

theorem documented_ofRecords (records : List Record) :
    (ofRecords records).documented = records.countP Record.documented :=
  count_ofRecords _ _ rfl (fun _ _ => rfl) records

theorem inDocument_ofRecords (records : List Record) :
    (ofRecords records).inDocument = records.countP (·.inDocument) :=
  count_ofRecords _ _ rfl (fun _ _ => rfl) records

theorem definitionMatches_ofRecords (records : List Record) :
    (ofRecords records).definitionMatches =
      records.countP fun r => r.matchesDocument && r.documented :=
  count_ofRecords _ _ rfl (fun _ _ => rfl) records

end Tally

/-! ## The table of methods -/

/-- A column of the table of methods, and the records that it counts. -/
structure Column where
  read : MethodCount → Nat
  counts : Record → Bool
  read_none : read ⟨0, 0, 0⟩ = 0
  read_bump : ∀ c r, read (bump c r) = read c + (counts r).toNat

namespace Column

def total : Column := ⟨MethodCount.total, fun _ => true, rfl, fun _ _ => rfl⟩

def documented : Column := ⟨MethodCount.documented, Record.documented, rfl, fun _ _ => rfl⟩

def inDocument : Column := ⟨MethodCount.inDocument, Record.inDocument, rfl, fun _ _ => rfl⟩

variable (c : Column)

theorem sumOf_addMethod (methods : List (String × MethodCount)) (r : Record) :
    sumOf c.read (addMethod methods r) = sumOf c.read methods + (c.counts r).toNat := by
  have hset := sumOf_set c.read methods (Text.upperCased r.method)
    (bump ((get? methods (Text.upperCased r.method)).getD ⟨0, 0, 0⟩) r)
  rw [c.read_bump] at hset
  rw [addMethod]
  cases hold : get? methods (Text.upperCased r.method) with
  | none =>
    rw [hold] at hset
    simpa only [Option.map_none, Option.getD_none, c.read_none, Nat.add_zero, Nat.zero_add]
      using hset
  | some old =>
    rw [hold] at hset
    simp only [Option.map_some, Option.getD_some] at hset ⊢
    omega

theorem sumOf_methods (records : List Record) :
    sumOf c.read (Tally.ofRecords records).methods = records.countP c.counts :=
  Tally.count_ofRecords (fun t => sumOf c.read t.methods) c.counts rfl
    (fun t r => c.sumOf_addMethod t.methods r) records

end Column

/-- The entry of a method: what the records with the method add up to, if there are any. -/
def entryOf (records : List Record) (method : String) : Option MethodCount :=
  let own := records.filter (Text.upperCased ·.method = method)
  if own = [] then none
  else some ⟨own.length, own.countP Record.documented, own.countP (·.inDocument)⟩

theorem entryOf_concat (records : List Record) (r : Record) (method : String) :
    entryOf (records ++ [r]) method =
      if Text.upperCased r.method = method
      then some (bump ((entryOf records method).getD ⟨0, 0, 0⟩) r) else entryOf records method := by
  by_cases hr : Text.upperCased r.method = method
  · have hown : (records ++ [r]).filter (Text.upperCased ·.method = method) =
        records.filter (Text.upperCased ·.method = method) ++ [r] := by
      rw [List.filter_append, List.filter_cons_of_pos (by simpa using hr), List.filter_nil]
    have hone : ∀ b : Bool, (if b = true then 1 else 0) = b.toNat := by decide
    rw [if_pos hr, entryOf, hown, if_neg (List.append_ne_nil_of_right_ne_nil _ (by simp)), entryOf]
    split
    · next hnil =>
      rw [hnil]
      simp [bump, List.countP_singleton, hone]
    · simp [bump, List.countP_append, List.countP_singleton, hone]
  · have hown : (records ++ [r]).filter (Text.upperCased ·.method = method) =
        records.filter (Text.upperCased ·.method = method) := by
      rw [List.filter_append, List.filter_cons_of_neg (by simpa using hr), List.filter_nil,
        List.append_nil]
    rw [if_neg hr, entryOf, hown, entryOf]

/-- The table of methods has an entry for each method of the records, and no other. -/
theorem get?_methods (records : List Record) (method : String) :
    get? (Tally.ofRecords records).methods method = entryOf records method := by
  induction records using List.reverseRecOn with
  | nil => rfl
  | append_singleton records r ih =>
    rw [Tally.ofRecords_concat, entryOf_concat]
    show get? (addMethod (Tally.ofRecords records).methods r) method = _
    rw [addMethod, get?_set]
    by_cases hr : Text.upperCased r.method = method
    · rw [if_pos hr, if_pos hr, hr, ih]
    · rw [if_neg hr, if_neg hr, ih]

theorem entryOf_perm {a b : List Record} (h : a.Perm b) (method : String) :
    entryOf a method = entryOf b method := by
  have hown := h.filter (Text.upperCased ·.method = method)
  have hnil : a.filter (Text.upperCased ·.method = method) = [] ↔
      b.filter (Text.upperCased ·.method = method) = [] :=
    ⟨fun ha => (ha ▸ hown).nil_eq.symm, fun hb => (hb ▸ hown).eq_nil⟩
  simp only [entryOf, hnil, hown.length_eq, hown.countP_eq]

/-! ## The table of tags -/

/-- The entry of something that occurs `n` times. -/
def counted (n : Nat) : Option Nat := if n = 0 then none else some n

section Tags

variable {tags : List (String × Nat)} {tag : String}

theorem get?_addTag (ht : Ambient.isAmbient tag = false) {n : Nat}
    (h : get? tags tag = counted n) (name : String) :
    get? (addTag tags name) tag = counted (n + [name].count tag) := by
  by_cases hname : name = tag
  · have hheld : (get? tags tag).getD 0 = n := by
      rw [h, counted]
      split
      · next hn => exact hn.symm
      · rfl
    rw [addTag, hname, assign_eq_set_of_not_ambient ht, get?_set, if_pos rfl, hheld,
      List.count_singleton_self]
    rfl
  · rw [addTag, get?_assign_of_ne tags hname, h, List.count_singleton, beq_false_of_ne hname]
    rfl

/-- Names that go into a table of counts add their occurrences, whatever stood there. -/
theorem get?_foldl_addTag (ht : Ambient.isAmbient tag = false) {n : Nat}
    (h : get? tags tag = counted n) (names : List String) :
    get? (names.foldl addTag tags) tag = counted (n + names.count tag) := by
  induction names generalizing tags n with
  | nil => exact h
  | cons name names ih =>
    rw [List.foldl_cons, ih (get?_addTag ht h name), Nat.add_assoc, ← List.count_append,
      List.singleton_append]

theorem get?_tags (ht : Ambient.isAmbient tag = false) (records : List Record) :
    get? (Tally.ofRecords records).tags tag = counted ((records.flatMap (·.tags)).count tag) := by
  induction records using List.reverseRecOn with
  | nil => rfl
  | append_singleton records r ih =>
    rw [Tally.ofRecords_concat, List.flatMap_append, List.flatMap_singleton, List.count_append]
    exact get?_foldl_addTag ht ih r.tags

end Tags

/-! ## The summary -/

/-- The counts of a result agree with its records, with each other and with its tables. -/
structure AddsUp (endpoints : List Endpoint) (r : Result) : Prop where
  records : r.records.length = endpoints.length
  total : r.summary.handlersTotal = r.records.length
  parts : r.summary.documented + r.summary.undocumented = r.summary.handlersTotal
  withBlock : r.summary.withBlock = r.records.countP (·.hasBlock)
  withDecorators : r.summary.withDecorators = r.records.countP (·.hasDecorators)
  documented : r.summary.documented = r.records.countP fun e => e.hasBlock || e.hasDecorators
  inDocument : r.summary.handlersInDocument = r.records.countP (·.inDocument)
  definitionMatches : r.summary.definitionMatches =
    r.records.countP fun e => e.matchesDocument && (e.hasBlock || e.hasDecorators)
  methodsTotal : sumOf MethodCount.total r.summary.methods = r.summary.handlersTotal
  methodsDocumented : sumOf MethodCount.documented r.summary.methods = r.summary.documented
  methodsInDocument :
    sumOf MethodCount.inDocument r.summary.methods = r.summary.handlersInDocument
  method : ∀ method, get? r.summary.methods method = entryOf r.records method
  tag : ∀ tag, Ambient.isAmbient tag = false → get? r.summary.tags tag =
    counted ((endpoints.flatMap fun e => tagsOf e.metadata.fields).count tag)
  rates : r.summary.documentationRate.IsShare ∧ r.summary.documentRate.IsShare ∧
    r.summary.definitionMatchRate.IsShare ∧ r.summary.componentAutomationRate.IsShare

/-- Two summaries have the same numbers, whatever the order of their tables. -/
structure Summary.SameNumbers (a b : Summary) : Prop where
  counts : { a with methods := [], tags := [] } = { b with methods := [], tags := [] }
  method : ∀ method, get? a.methods method = get? b.methods method
  tag : ∀ tag, Ambient.isAmbient tag = false → get? a.tags tag = get? b.tags tag

section Summary

variable (ignored : List IgnoredEndpoint) (document : Fields) (components : Option Fields)

theorem compute_addsUp (endpoints : List Endpoint) :
    AddsUp endpoints (compute endpoints ignored document components) := by
  have hlength : (endpoints.map (recordOf document)).length = endpoints.length :=
    List.length_map _
  have hdocumented := Tally.documented_ofRecords (endpoints.map (recordOf document))
  have hinDocument := Tally.inDocument_ofRecords (endpoints.map (recordOf document))
  have hmatches := Tally.definitionMatches_ofRecords (endpoints.map (recordOf document))
  have hle : (Tally.ofRecords (endpoints.map (recordOf document))).documented ≤
      endpoints.length := by
    rw [hdocumented, ← hlength]
    exact List.countP_le_length
  constructor
  case records => exact hlength
  case total => exact hlength.symm
  case parts => exact Nat.add_sub_cancel' hle
  case withBlock => exact Tally.withBlock_ofRecords _
  case withDecorators => exact Tally.withDecorators_ofRecords _
  case documented => exact hdocumented
  case inDocument => exact hinDocument
  case definitionMatches => exact hmatches
  case methodsTotal =>
    exact (Column.total.sumOf_methods _).trans
      ((List.countP_eq_length.mpr fun _ _ => rfl).trans hlength)
  case methodsDocumented => exact (Column.documented.sumOf_methods _).trans hdocumented.symm
  case methodsInDocument => exact (Column.inDocument.sumOf_methods _).trans hinDocument.symm
  case method => exact get?_methods _
  case tag =>
    intro tag ht
    refine (get?_tags ht _).trans ?_
    rw [List.flatMap_map]
    rfl
  case rates =>
    refine ⟨isShare_rate hle (by decide), isShare_rate ?_ (by decide), isShare_rate ?_ (by decide),
      isShare_rate (Nat.sub_le _ _) (by decide)⟩
    · rw [hinDocument, ← hlength]
      exact List.countP_le_length
    · rw [hmatches, hdocumented]
      exact List.countP_mono_left fun r _ hr => (Bool.and_eq_true_iff.mp hr).2

theorem sameNumbers_of_perm {a b : List Endpoint} (h : a.Perm b) :
    (compute a ignored document components).summary.SameNumbers
      (compute b ignored document components).summary := by
  have hrecords := h.map (recordOf document)
  -- What is only in the document depends on which endpoints there are, not on their order.
  have hpair : Document.hasPair a = Document.hasPair b := by
    funext path method
    exact h.any_eq
  have ha := compute_addsUp ignored document components a
  have hb := compute_addsUp ignored document components b
  constructor
  case counts =>
    simp only [compute, Tally.withBlock_ofRecords, Tally.withDecorators_ofRecords,
      Tally.documented_ofRecords, Tally.inDocument_ofRecords, Tally.definitionMatches_ofRecords,
      hrecords.countP_eq, h.length_eq, hpair]
  case method =>
    intro method
    rw [ha.method, hb.method]
    exact entryOf_perm hrecords method
  case tag =>
    intro tag ht
    rw [ha.tag tag ht, hb.tag tag ht, (h.flatMap_right _).count_eq]

end Summary

section Example

/-- Methods in either case, a tag given as a text, and a tag given twice. -/
def shop : List Endpoint :=
  [⟨"/items", "get", "h.py", "index", 1, [("tags", .list [.str "items", .str "items"])], none⟩,
    ⟨"/items", "GET", "h.py", "again", 9, [], some [("tags", .str "items")]⟩,
    ⟨"/carts", "post", "h.py", "create", 20, [], none⟩]

end Example

end Coverage
end ApiSync
