import Mathlib.Data.List.Nodup
import ApiSync.Proofs.Metadata.Agreement
import ApiSync.Proofs.Text.Order
/-!
# Reports of conflicts

A report is about a field or about the status of a response.  The reports of a block and its
decorators are the subjects on which both sides differ, in a fixed order and once each: a scalar
field if both hold something other than null, tags and security if both say anything and the
rendered members are not the same, and a status if both define it.

What is defined on both sides and not reported stands in the merged metadata as the block has it.
There are fields that both sides hold and the reports pass over: those where one side holds null or
says nothing.  There the value of the decorators takes the place of the block's without a report.
-/

namespace ApiSync
namespace Metadata

open Fields (WellFormed Takes get? has keys)
open Value (fieldsAt same)

/-! ## Subjects -/

/-- What a report is about. -/
inductive Subject where
  | scalar (field : String)
  | members (field : String)
  | response (status : String)
deriving DecidableEq

/-- What can be reported about a block, in the order of the reports. -/
def subjects (block : Fields) : List Subject :=
  [.scalar "summary", .scalar "description", .scalar "operationId", .scalar "deprecated",
    .members "tags", .members "security"] ++
    (keys (fieldsAt block "responses")).map .response

def responseText (operation status : String) : String :=
  s!"Conflict in {operation} response {status}: " ++
    "Both YAML and decorator define this status code (merging, decorator takes precedence)"

/-- The text of a report. -/
def Subject.text (operation : String) (block decorators : Fields) : Subject → String
  | .scalar field => conflictText operation field (Value.renderedOption (get? block field))
      (Value.renderedOption (get? decorators field))
  | .members field => conflictText operation field (bracketed (memberSet (get? block field)))
      (bracketed (memberSet (get? decorators field)))
  | .response status => responseText operation status

/-- The rendered members of a list; a value that is no list is one member. -/
def renderedMembers (v : Option Value) : List String :=
  match v with
  | some (.list vs) => vs.map Value.rendered
  | v => [Value.renderedOption v]

def SameMembers (a b : Option Value) : Prop :=
  ∀ text, text ∈ renderedMembers a ↔ text ∈ renderedMembers b

/-- What it is for both sides to differ on a subject. -/
def Differ (block decorators : Fields) : Subject → Prop
  | .scalar field => ∃ a b, get? block field = some a ∧ get? decorators field = some b ∧
      a.isNull = false ∧ b.isNull = false ∧ same a b = false
  | .members field => isSet (get? block field) = true ∧ isSet (get? decorators field) = true ∧
      ¬SameMembers (get? block field) (get? decorators field)
  | .response status => ∃ a b, get? (fieldsAt block "responses") status = some a ∧
      get? (fieldsAt decorators "responses") status = some b ∧ same a b = false

theorem memberSet_eq_iff {a b : Option Value} : memberSet a = memberSet b ↔ SameMembers a b := by
  have hset (v : Option Value) :
      memberSet v = Text.sortNames (Text.distinct (renderedMembers v)) := by
    cases v with
    | none => rfl
    | some w => cases w <;> rfl
  rw [hset, hset, Text.sortNames_distinct_eq_iff, SameMembers]

/-! ## The three detectors -/

theorem some_eq_some_iff_and {P : Prop} (h : P) {text report : String} :
    some report = some text ↔ P ∧ text = report :=
  ⟨fun heq => ⟨h, (Option.some.inj heq).symm⟩, fun heq => congrArg some heq.2.symm⟩

section Detectors

variable {operation text : String} {block decorators : Fields}

theorem scalarConflict?_eq_some_iff {field : String} :
    scalarConflict? operation block decorators field = some text ↔
      Differ block decorators (.scalar field) ∧
        text = (Subject.scalar field).text operation block decorators := by
  rw [scalarConflict?, Differ, Subject.text]
  cases get? block field with
  | none => simp
  | some a =>
    cases get? decorators field with
    | none => simp
    | some b =>
      dsimp only
      split
      · next h =>
        refine iff_of_false (nomatch ·) ?_
        rintro ⟨⟨_, _, ⟨⟩, ⟨⟩, ha, hb, hsame⟩, -⟩
        simp [ha, hb, hsame] at h
      · next h =>
        rw [Bool.or_eq_true, Bool.or_eq_true, not_or, not_or, Bool.not_eq_true, Bool.not_eq_true,
          Bool.not_eq_true] at h
        exact some_eq_some_iff_and ⟨a, b, rfl, rfl, h.1.1, h.1.2, h.2⟩

theorem setConflict?_eq_some_iff {field : String} :
    setConflict? operation block decorators field = some text ↔
      Differ block decorators (.members field) ∧
        text = (Subject.members field).text operation block decorators := by
  rw [setConflict?, Differ, Subject.text, ← memberSet_eq_iff]
  split
  · next h =>
    rw [Bool.and_eq_true, Bool.and_eq_true, decide_eq_true_eq, and_assoc] at h
    exact some_eq_some_iff_and h
  · next h =>
    rw [Bool.and_eq_true, Bool.and_eq_true, decide_eq_true_eq, and_assoc] at h
    exact iff_of_false (nomatch ·) fun hdiffer => h hdiffer.1

/-- A status that no look-up finds by itself is reported if both mappings have it. -/
theorem responseConflict?_eq_some_iff {status : String}
    (hplain : Ambient.isAmbient status = false)
    (hstatus : status ∈ keys (fieldsAt block "responses")) :
    responseConflict? operation (fieldsAt block "responses") (fieldsAt decorators "responses")
        status = some text ↔
      Differ block decorators (.response status) ∧
        text = (Subject.response status).text operation block decorators := by
  have hdef : responseConflict? operation (fieldsAt block "responses")
      (fieldsAt decorators "responses") status =
        if Fields.answers (fieldsAt decorators "responses") status &&
          !Value.sameOption (get? (fieldsAt block "responses") status)
            (get? (fieldsAt decorators "responses") status) then
          some (responseText operation status) else none := rfl
  rw [hdef, Differ, Subject.text, Fields.answers_eq_has hplain, Fields.has_eq_isSome]
  cases hblock : get? (fieldsAt block "responses") status with
  | none => exact absurd hstatus (Fields.get?_eq_none_iff.mp hblock)
  | some a =>
    cases get? (fieldsAt decorators "responses") status with
    | none => simp
    | some b =>
      rw [Value.sameOption, Option.isSome_some, Bool.true_and]
      split
      · next h =>
        rw [Bool.not_eq_true'] at h
        exact some_eq_some_iff_and ⟨a, b, rfl, rfl, h⟩
      · next h =>
        refine iff_of_false (nomatch ·) ?_
        rintro ⟨⟨_, _, ⟨⟩, ⟨⟩, hsame⟩, -⟩
        simp [hsame] at h

end Detectors

/-- The report on a subject, if there is one. -/
def conflict? (operation : String) (block decorators : Fields) : Subject → Option String
  | .scalar field => scalarConflict? operation block decorators field
  | .members field => setConflict? operation block decorators field
  | .response status => responseConflict? operation (fieldsAt block "responses")
      (fieldsAt decorators "responses") status

/-- No status of the block is a name that every look-up finds. -/
def PlainStatuses (block : Fields) : Prop :=
  ∀ status ∈ keys (fieldsAt block "responses"), Ambient.isAmbient status = false

theorem conflict?_eq_some_iff {block : Fields} (hplain : PlainStatuses block)
    {operation text : String} {decorators : Fields} {x : Subject} (hx : x ∈ subjects block) :
    conflict? operation block decorators x = some text ↔
      Differ block decorators x ∧ text = x.text operation block decorators := by
  cases x with
  | scalar field => exact scalarConflict?_eq_some_iff
  | members field => exact setConflict?_eq_some_iff
  | response status =>
    have hstatus : status ∈ keys (fieldsAt block "responses") := by
      simpa [subjects] using hx
    exact responseConflict?_eq_some_iff (hplain status hstatus) hstatus

/-- The reports are found subject by subject. -/
theorem conflicts_eq_filterMap {block : Fields} (hplain : PlainStatuses block)
    (decorators : Fields) (path method : String) :
    conflicts block decorators path method =
      (subjects block).filterMap (conflict? (operationName path method) block decorators) := by
  have hsubjects : (subjects block).filterMap
      (conflict? (operationName path method) block decorators) =
        scalarFields.filterMap (scalarConflict? (operationName path method) block decorators) ++
          setFields.filterMap (setConflict? (operationName path method) block decorators) ++
          (keys (fieldsAt block "responses")).filterMap
            (responseConflict? (operationName path method) (fieldsAt block "responses")
              (fieldsAt decorators "responses")) := by
    show (scalarFields.map Subject.scalar ++ setFields.map Subject.members ++
      (keys (fieldsAt block "responses")).map Subject.response).filterMap _ = _
    rw [List.filterMap_append, List.filterMap_append, List.filterMap_map, List.filterMap_map,
      List.filterMap_map]
    rfl
  rw [hsubjects, conflicts]
  congr 1
  split
  · next a b ha hb => rw [Value.fieldsAt_of_get? ha, Value.fieldsAt_of_get? hb]
  · next hnot =>
    symm
    rw [List.filterMap_eq_nil_iff]
    intro status hstatus
    have hblock : fieldsAt block "responses" ≠ [] := by
      intro hnil
      rw [hnil] at hstatus
      exact absurd hstatus List.not_mem_nil
    have hdecorators : fieldsAt decorators "responses" = [] :=
      Decidable.byContradiction fun hne => hnot _ _ (Value.get?_of_fieldsAt_ne_nil hblock)
        (Value.get?_of_fieldsAt_ne_nil hne)
    rw [hdecorators, responseConflict?, Fields.answers_eq_has (hplain status hstatus)]
    rfl

/-- The subjects that are reported. -/
def reported (operation : String) (block decorators : Fields) : List Subject :=
  (subjects block).filter fun x => (conflict? operation block decorators x).isSome

theorem mem_reported_iff {block : Fields} (hplain : PlainStatuses block) {operation : String}
    {decorators : Fields} {x : Subject} (hx : x ∈ subjects block) :
    x ∈ reported operation block decorators ↔ Differ block decorators x := by
  rw [reported, List.mem_filter, and_iff_right hx, Option.isSome_iff_exists]
  constructor
  · rintro ⟨text, htext⟩
    exact ((conflict?_eq_some_iff hplain hx).mp htext).1
  · exact fun h => ⟨_, (conflict?_eq_some_iff hplain hx).mpr ⟨h, rfl⟩⟩

/-- Values that are kept only where they are given by a function are the images of what is
kept. -/
theorem filterMap_eq_map_filter {α β : Type} {f : α → Option β} {g : α → β} {xs : List α}
    (h : ∀ x ∈ xs, ∀ y, f x = some y → y = g x) :
    xs.filterMap f = (xs.filter fun x => (f x).isSome).map g := by
  induction xs with
  | nil => rfl
  | cons x xs ih =>
    have hrest := ih fun a ha => h a (List.mem_cons_of_mem x ha)
    rw [List.filterMap_cons, List.filter_cons]
    cases hx : f x with
    | none => exact hrest
    | some y =>
      rw [h x List.mem_cons_self y hx, hrest]
      rfl

theorem conflicts_eq_map_reported {block : Fields} (hplain : PlainStatuses block)
    (decorators : Fields) (path method : String) :
    conflicts block decorators path method =
      (reported (operationName path method) block decorators).map
        (Subject.text (operationName path method) block decorators) := by
  rw [conflicts_eq_filterMap hplain, reported]
  exact filterMap_eq_map_filter fun x hx text htext =>
    ((conflict?_eq_some_iff hplain hx).mp htext).2

/-! ## Different subjects have different texts -/

section Texts

variable {mark kind : String}

/-- A name that ends at the first quote is told from the text. -/
theorem eq_of_append_quote {name other tail tail' : String} {rest : List Char}
    (hmark : mark.toList = '"' :: rest) (hn : '"' ∉ name.toList) (ho : '"' ∉ other.toList)
    (h : name ++ (mark ++ tail) = other ++ (mark ++ tail')) : name = other := by
  have hcut (cs more : List Char) (hc : '"' ∉ cs) :
      (cs ++ '"' :: more).takeWhile (· ≠ '"') = cs := by
    have hkept : ∀ c ∈ cs, decide (c ≠ '"') = true := fun c hmem =>
      decide_eq_true fun hquote => hc (hquote ▸ hmem)
    rw [List.takeWhile_append_of_pos hkept]
    simp
  have hlists := congrArg String.toList h
  simp only [String.toList_append, hmark, List.cons_append] at hlists
  refine String.toList_inj.mp ?_
  rw [← hcut _ _ hn, hlists, hcut _ _ ho]

theorem ne_of_second_char {kind' tail tail' : String} {a b c d : Char} {rest rest' : List Char}
    (hkind : kind.toList = a :: b :: rest) (hkind' : kind'.toList = c :: d :: rest')
    (hne : b ≠ d) : kind ++ tail ≠ kind' ++ tail' := by
  intro h
  have hlists := congrArg String.toList h
  simp only [String.toList_append, hkind, hkind', List.cons_append] at hlists
  exact hne (List.cons.inj (List.cons.inj hlists).2).1

theorem append_grouped (opening operation kind name mark tail : String) :
    opening ++ operation ++ kind ++ name ++ mark ++ tail =
      opening ++ operation ++ (kind ++ (name ++ (mark ++ tail))) := by
  simp only [String.append_assoc]

variable {operation : String}

theorem conflictText_eq (operation field block decorators : String) :
    conflictText operation field block decorators =
      "Conflict in " ++ operation ++ (" field \"" ++ (field ++ ("\": " ++
        ("YAML=" ++ block ++ " vs Decorator=" ++ decorators ++ " (using decorator)")))) :=
  append_grouped _ _ _ _ _ _

theorem responseText_eq (operation status : String) :
    responseText operation status =
      "Conflict in " ++ operation ++ (" response " ++ (status ++ (": " ++
        "Both YAML and decorator define this status code (merging, decorator takes precedence)"))) :=
  append_grouped _ _ _ _ _ _

theorem eq_of_conflictText {field other b d b' d' : String} (hf : '"' ∉ field.toList)
    (ho : '"' ∉ other.toList)
    (h : conflictText operation field b d = conflictText operation other b' d') :
    field = other := by
  have htexts := (conflictText_eq _ _ _ _).symm.trans (h.trans (conflictText_eq _ _ _ _))
  have hnames := (String.append_right_inj _).mp ((String.append_right_inj _).mp htexts)
  exact eq_of_append_quote (by rfl) hf ho hnames

theorem conflictText_ne_responseText (field b d status : String) :
    conflictText operation field b d ≠ responseText operation status := by
  intro h
  have htexts := (conflictText_eq _ _ _ _).symm.trans (h.trans (responseText_eq _ _))
  exact ne_of_second_char (by rfl) (by rfl) (by decide) ((String.append_right_inj _).mp htexts)

theorem eq_of_responseText {status other : String}
    (h : responseText operation status = responseText operation other) : status = other := by
  have htexts := (responseText_eq _ _).symm.trans (h.trans (responseText_eq _ _))
  have hnames := (String.append_right_inj _).mp ((String.append_right_inj _).mp htexts)
  exact (String.append_left_inj _).mp hnames

variable {block decorators : Fields}

/-- The field that a report is about, which holds no quote. -/
theorem mem_of_scalar_mem {field : String} (h : Subject.scalar field ∈ subjects block) :
    field ∈ ["summary", "description", "operationId", "deprecated"] := by
  simpa [subjects] using h

theorem mem_of_members_mem {field : String} (h : Subject.members field ∈ subjects block) :
    field ∈ ["tags", "security"] := by
  simpa [subjects] using h

theorem Subject.eq_of_text {x y : Subject} (hx : x ∈ subjects block) (hy : y ∈ subjects block)
    (h : x.text operation block decorators = y.text operation block decorators) : x = y := by
  have hscalar : ∀ field ∈ ["summary", "description", "operationId", "deprecated"],
      '"' ∉ field.toList := by decide
  have hmembers : ∀ field ∈ ["tags", "security"], '"' ∉ field.toList := by decide
  have hkinds : ∀ field ∈ ["summary", "description", "operationId", "deprecated"],
      field ∉ ["tags", "security"] := by decide
  cases x with
  | scalar field =>
    have hfield := mem_of_scalar_mem hx
    cases y with
    | scalar other =>
      have hother := mem_of_scalar_mem hy
      rw [eq_of_conflictText (hscalar field hfield) (hscalar other hother) h]
    | members other =>
      have hother := mem_of_members_mem hy
      have heq := eq_of_conflictText (hscalar field hfield) (hmembers other hother) h
      exact absurd (heq ▸ hother) (hkinds field hfield)
    | response status => exact absurd h (conflictText_ne_responseText _ _ _ status)
  | members field =>
    have hfield := mem_of_members_mem hx
    cases y with
    | scalar other =>
      have hother := mem_of_scalar_mem hy
      have heq := eq_of_conflictText (hmembers field hfield) (hscalar other hother) h
      exact absurd (heq ▸ hfield) (hkinds other hother)
    | members other =>
      have hother := mem_of_members_mem hy
      rw [eq_of_conflictText (hmembers field hfield) (hmembers other hother) h]
    | response status => exact absurd h (conflictText_ne_responseText _ _ _ status)
  | response status =>
    cases y with
    | scalar other => exact absurd h.symm (conflictText_ne_responseText _ _ _ status)
    | members other => exact absurd h.symm (conflictText_ne_responseText _ _ _ status)
    | response other => rw [eq_of_responseText h]

end Texts

/-! ## Reports and the merge -/

theorem nodup_subjects {block : Fields} (h : WellFormed block) : (subjects block).Nodup := by
  have hstatuses := (Fields.wellFormed_iff.mp (wellFormed_fieldsAt h "responses")).1
  refine List.nodup_append.mpr ⟨by decide, hstatuses.map fun a b => Subject.response.inj, ?_⟩
  intro x hx y hy heq
  obtain ⟨status, -, rfl⟩ := List.mem_map.mp hy
  simp [heq] at hx

def Reported (block decorators : Fields) (path method : String) (x : Subject) : Prop :=
  x.text (operationName path method) block decorators ∈ conflicts block decorators path method

/-- The reports are about the subjects on which both sides differ, in order and once each. -/
structure ReportsExactly (block decorators : Fields) (path method : String) : Prop where
  ordered : ∃ xs : List Subject, xs.Sublist (subjects block) ∧
    conflicts block decorators path method =
      xs.map (Subject.text (operationName path method) block decorators)
  exact : ∀ x ∈ subjects block,
    Reported block decorators path method x ↔ Differ block decorators x
  once : (conflicts block decorators path method).Nodup

/-- Where nothing is reported about what both sides hold, merged metadata has the block's value,
unless null stands on one side only, or one side of a list of members says nothing. -/
structure KeepsUnreported (block decorators : Fields) (path method : String) (merged : Fields) :
    Prop where
  scalar : ∀ field a b, .scalar field ∈ subjects block → get? block field = some a →
    get? decorators field = some b → ¬Reported block decorators path method (.scalar field) →
    ∃ m, get? merged field = some m ∧ (same a m = true ↔ a.isNull = b.isNull)
  members : ∀ field a b, .members field ∈ subjects block → get? block field = some a →
    get? decorators field = some b → ¬Reported block decorators path method (.members field) →
    isSet (some a) = true → isSet (some b) = true →
    ∃ m, get? merged field = some m ∧ SameMembers (some a) (some m)
  response : ∀ status a b, get? (fieldsAt block "responses") status = some a →
    get? (fieldsAt decorators "responses") status = some b →
    ¬Reported block decorators path method (.response status) →
    ∃ m, get? (fieldsAt merged "responses") status = some m ∧ same a m = true

theorem reportsExactly {block : Fields} (hb : WellFormed block) (hplain : PlainStatuses block)
    (decorators : Fields) (path method : String) :
    ReportsExactly block decorators path method := by
  have htexts := conflicts_eq_map_reported hplain decorators path method
  have hsublist : (reported (operationName path method) block decorators).Sublist
      (subjects block) := List.filter_sublist
  refine ⟨⟨_, hsublist, htexts⟩, fun x hx => ?_, ?_⟩
  · rw [Reported, htexts, List.mem_map]
    constructor
    · rintro ⟨y, hy, htext⟩
      obtain rfl : y = x := Subject.eq_of_text (hsublist.subset hy) hx htext
      exact (mem_reported_iff hplain hx).mp hy
    · exact fun h => ⟨x, (mem_reported_iff hplain hx).mpr h, rfl⟩
  · rw [htexts]
    refine List.Nodup.map_on (fun x hx y hy => ?_) ((nodup_subjects hb).sublist hsublist)
    exact Subject.eq_of_text (hsublist.subset hx) (hsublist.subset hy)

theorem eq_null_of_isNull {v : Value} (h : v.isNull = true) : v = .null := by
  cases v with
  | null => rfl
  | _ => cases h

/-- If values other than null are deeply equal, so are all but null and another. -/
theorem same_iff_isNull_eq {a b : Value}
    (h : a.isNull = false → b.isNull = false → same a b = true) :
    same a b = true ↔ a.isNull = b.isNull := by
  cases ha : a.isNull with
  | true =>
    obtain rfl := eq_null_of_isNull ha
    cases b <;> simp [same, Value.isNull]
  | false =>
    cases hb : b.isNull with
    | true =>
      obtain rfl := eq_null_of_isNull hb
      cases a <;> simp [same, Value.isNull] at ha ⊢
    | false => exact iff_of_true (h ha hb) rfl

/-- What decorators hold replaces what the block holds under the fields that reports compare. -/
theorem get?_merge_of_compared {decorators : Fields} (hx : has decorators "x-examples" = false)
    {block : Fields} {path method field : String} {b : Value}
    (hfield : .scalar field ∈ subjects block ∨ .members field ∈ subjects block)
    (hb : get? decorators field = some b) :
    get? (merge block (some decorators) path method).fields field = some b := by
  have hne : decorators ≠ [] := by
    intro hnil
    rw [hnil] at hb
    cases hb
  have hdecided : field ≠ "x-response-headers" ∧ field ∈ replacedFields := by
    simp only [subjects, List.mem_append, List.mem_map, List.mem_cons, List.not_mem_nil,
      Subject.scalar.injEq, Subject.members.injEq, reduceCtorEq, and_false, exists_false,
      or_false, false_or] at hfield
    rcases hfield with (rfl | rfl | rfl | rfl) | rfl | rfl <;> decide
  rw [get?_merge hne hx, if_neg hdecided.1, fieldOver_of_replaced _ _ _ hdecided.2, hb,
    Option.some_or]

/-- The reports of a block and its decorators are exact, and the merge leaves alone what both
sides define and no report names. -/
theorem conflicts_exact {block decorators : Fields} (hb : WellFormed block)
    (hd : WellFormed decorators) (hplain : PlainStatuses block)
    (hx : has decorators "x-examples" = false) (path method : String) :
    ReportsExactly block decorators path method ∧
      KeepsUnreported block decorators path method
        (merge block (some decorators) path method).fields := by
  have hexact := reportsExactly hb hplain decorators path method
  refine ⟨hexact, ?_, ?_, ?_⟩
  · intro field a b hfield ha hbv hreport
    rw [hexact.exact _ hfield] at hreport
    refine ⟨b, get?_merge_of_compared hx (Or.inl hfield) hbv, same_iff_isNull_eq ?_⟩
    intro hanull hbnull
    refine Decidable.byContradiction fun hsame => hreport ?_
    exact ⟨a, b, ha, hbv, hanull, hbnull, Bool.eq_false_iff.mpr hsame⟩
  · intro field a b hfield ha hbv hreport hasets hbsets
    rw [hexact.exact _ hfield] at hreport
    refine ⟨b, get?_merge_of_compared hx (Or.inr hfield) hbv, ?_⟩
    refine Classical.byContradiction fun hdiffer => hreport ?_
    rw [Differ, ha, hbv]
    exact ⟨hasets, hbsets, hdiffer⟩
  · intro status a b ha hbv hreport
    have hstatus : status ∈ keys (fieldsAt block "responses") :=
      List.mem_map.mpr ⟨(status, a), Fields.mem_of_get? ha, rfl⟩
    have hsubject : Subject.response status ∈ subjects block :=
      List.mem_append_right _ (List.mem_map_of_mem hstatus)
    rw [hexact.exact _ hsubject] at hreport
    have hsame : same a b = true := Decidable.byContradiction fun hdiffer =>
      hreport ⟨a, b, ha, hbv, Bool.eq_false_iff.mpr hdiffer⟩
    have hne : decorators ≠ [] := by
      intro hnil
      rw [hnil] at hbv
      cases hbv
    have hresponses := get?_merge hne hx block path method "responses"
    rw [if_neg (by decide), fieldOver_responses] at hresponses
    have ht : Takes (fieldsAt block "responses") status :=
      Fields.takes_of_has (Fields.has_of_get? ha)
    rw [get?_responses (wellFormed_fieldsAt hd _) ht hresponses, ha, hbv]
    exact same_responseOver ((wellFormed_fieldsAt hb _).get? ha)
      ((wellFormed_fieldsAt hd _).get? hbv) hsame method

/-- A block and decorators with a field of each kind that differs, and one that does not. -/
def disputedBlock : Fields :=
  [("summary", .str "Old"), ("description", .null), ("deprecated", .bool true),
    ("tags", .list [.str "a", .str "b"]), ("security", .str "key"),
    ("responses", .map [("200", .map [("description", .str "OK")]), ("404", .null)])]

def disputingDecorators : Fields :=
  [("summary", .str "New"), ("description", .str "Text"), ("deprecated", .bool true),
    ("tags", .list [.str "b", .str "a", .str "a"]), ("security", .list [.str "token"]),
    ("responses", .map [("404", .null), ("200", .map [("methods", .list [])])])]

theorem conflicts_exact_of_disputed :
    WellFormed disputedBlock ∧ WellFormed disputingDecorators ∧ PlainStatuses disputedBlock ∧
      has disputingDecorators "x-examples" = false ∧
      ReportsExactly disputedBlock disputingDecorators "/items" "get" ∧
      KeepsUnreported disputedBlock disputingDecorators "/items" "get"
        (merge disputedBlock (some disputingDecorators) "/items" "get").fields := by
  have hb : WellFormed disputedBlock := by
    simp [disputedBlock, WellFormed, Value.WellFormed, Value.WellFormedEntries,
      Value.WellFormedItems, keys]
  have hd : WellFormed disputingDecorators := by
    simp [disputingDecorators, WellFormed, Value.WellFormed, Value.WellFormedEntries,
      Value.WellFormedItems, keys]
  have hplain : PlainStatuses disputedBlock := by
    show ∀ status ∈ ["200", "404"], Ambient.isAmbient status = false
    decide
  have hx : has disputingDecorators "x-examples" = false := by decide
  exact ⟨hb, hd, hplain, hx, conflicts_exact hb hd hplain hx "/items" "get"⟩

def taggedBlock : Fields := [("tags", .list [.str "a"])]

def emptyTags : Fields := [("tags", .list [])]

/-- Tags that the decorators set to an empty list are gone, and no report says so. -/
theorem not_left_of_emptyTags :
    ¬∀ field a b, Subject.members field ∈ subjects taggedBlock →
      get? taggedBlock field = some a → get? emptyTags field = some b →
      ¬Reported taggedBlock emptyTags "/items" "get" (.members field) →
      ∃ m, get? (merge taggedBlock (some emptyTags) "/items" "get").fields field = some m ∧
        SameMembers (some a) (some m) := by
  intro h
  have hnone : conflicts taggedBlock emptyTags "/items" "get" = [] := rfl
  have hunreported : ¬Reported taggedBlock emptyTags "/items" "get" (.members "tags") := by
    rw [Reported, hnone]
    exact List.not_mem_nil
  obtain ⟨m, hm, hsame⟩ := h "tags" (.list [.str "a"]) (.list []) (by decide) rfl rfl hunreported
  have hmerged : get? (merge taggedBlock (some emptyTags) "/items" "get").fields "tags" =
      some (.list []) := rfl
  obtain rfl : Value.list [] = m := Option.some.inj (hmerged.symm.trans hm)
  have hlost := (hsame (Value.rendered (.str "a"))).mp List.mem_cons_self
  exact absurd hlost List.not_mem_nil

end Metadata
end ApiSync
