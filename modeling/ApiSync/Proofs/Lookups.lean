import ApiSync.Config.Load
import ApiSync.Proofs.Document.Names
import ApiSync.Proofs.Fields
import ApiSync.Proofs.Python.Escapes
/-!
# Looking up a name that was not declared

Names that come from source, from a command line or from a document are looked up among the fields
of a path, the profiles of a configuration, the generated components and the schemas.  Each of these
look-ups finds what was declared and nothing else exactly for the names that no mapping answers to
by itself.
-/

namespace ApiSync

/-! ## Fields of a path

The path of a literal is known only if each of its fields names the version.  A field of an
inherited name is filled in with what the answer looks like as text.
-/

namespace Python

open Text

def versionName : String := "API_VERSION"

/-- A format literal of the expression has a field of the name. -/
def Expr.HasField (e : Expr) (name : String) : Prop :=
  ∃ (pieces : List String) (piece : String) (parts : StringParts) (field : List Char),
    e.form = .strings pieces ∧ piece ∈ pieces ∧ splitLiteral? piece = some parts ∧
      parts.has 'f' = true ∧ .field field ∈ formatPartsFrom .text parts.body ∧
        String.ofList (trim field) = name

/-- A field of the name leaves the path open, if the texts that are read before it can be decoded. -/
def LeavesPathOpen (name : String) : Prop :=
  ∀ e : Expr, e.HasField name → (e.path? = .ok none ↔ Decodes e.pathTexts)

theorem placeholder?_eq_none {field : List Char}
    (hversion : String.ofList (trim field) ≠ versionName)
    (hambient : Ambient.isAmbient (String.ofList (trim field)) = false) :
    placeholder? field = none := by
  have hunknown : Fields.get? placeholders (String.ofList (trim field)) = none := by
    rw [Fields.get?_eq_none_iff]
    exact fun hmem => hversion (List.mem_singleton.mp hmem)
  rw [placeholder?, hunknown, Ambient.text?_eq_none hambient]
  rfl

theorem isResolved_of_field {field : List Char} (h : placeholder? field = none) :
    ∀ {parts : List FormatPart}, .field field ∈ parts → isResolved parts = false := by
  intro parts hmem
  induction parts with
  | nil => exact absurd hmem List.not_mem_nil
  | cons part parts ih =>
    rcases List.mem_cons.mp hmem with rfl | hrest
    · rw [isResolved, h]
      rfl
    · cases part with
      | text => exact ih hrest
      | unclosed => rfl
      | field other => rw [isResolved, ih hrest, Bool.and_false]

/-- Pieces side by side have a value if each of them has. -/
theorem describes_joinPieces {decode : String → Except Failure (Option (List Nat))}
    {decoded : String → Decoded} (h : ∀ piece, Describes (decoded piece) (decode piece))
    (pieces : List String) :
    Describes ⟨joinedTexts decoded pieces, pieces.all fun piece => (decoded piece).hasValue⟩
      (joinPieces decode pieces) := by
  refine ⟨reads_joinPieces h pieces, ?_⟩
  induction pieces with
  | nil =>
    rintro _ ⟨⟩
    rfl
  | cons piece pieces ih =>
    intro joined hjoined
    obtain ⟨points, hpoints, hrest⟩ := bind_eq_ok.mp hjoined
    have hvalue := (h piece).value points hpoints
    rw [List.all_cons, ← hvalue]
    cases points with
    | none => rw [← pure_eq_ok.mp hrest]; rfl
    | some points =>
      obtain ⟨more, hmore, hlast⟩ := bind_eq_ok.mp hrest
      rw [← pure_eq_ok.mp hlast, Option.isSome_map]
      exact ih more hmore

/-- A piece with a field that stands for nothing has no value. -/
theorem hasValue_of_field {piece : String} {parts : StringParts} {field : List Char}
    (hsplit : splitLiteral? piece = some parts) (hformat : parts.has 'f' = true)
    (hmem : .field field ∈ formatPartsFrom .text parts.body) (h : placeholder? field = none) :
    (pathPieceTexts piece).hasValue = false := by
  rw [pathPieceTexts, hsplit]
  dsimp only
  split
  · rfl
  · exact isResolved_of_field h hmem

theorem path?_of_hasField {e : Expr} {name : String} (h : e.HasField name)
    (hversion : name ≠ versionName) (hambient : Ambient.isAmbient name = false)
    (hdecodes : Decodes e.pathTexts) : e.path? = .ok none := by
  obtain ⟨pieces, piece, parts, field, hform, hpiece, hsplit, hformat, hmem, rfl⟩ := h
  have hvalue := hasValue_of_field hsplit hformat hmem (placeholder?_eq_none hversion hambient)
  have hopen : (pieces.all fun piece => (pathPieceTexts piece).hasValue) = false :=
    List.all_eq_false.mpr ⟨piece, hpiece, by rw [hvalue]; exact Bool.false_ne_true⟩
  have hjoined := describes_joinPieces describes_pathPiece pieces
  rw [Expr.pathTexts, hform] at hdecodes
  obtain ⟨joined, hread⟩ := hjoined.reads.succeeds hdecodes
  have hnone : joined = none := by
    have hsome := hjoined.value joined hread
    rw [hopen] at hsome
    exact Option.isNone_iff_eq_none.mp (by rw [← Option.not_isSome, hsome]; rfl)
  rw [Expr.path?, hform]
  dsimp only
  rw [pathPieces, hread, hnone]
  rfl

/-! ## Inherited names -/

/-- A path of one field. -/
def fieldPath (name : String) : Expr := .mk "" (.strings ["f'/\x7b" ++ name ++ "\x7d'"])

theorem fieldPath_of_ambient : ∀ name ∈ Ambient.names,
    splitLiteral? ("f'/\x7b" ++ name ++ "\x7d'") =
        some ⟨['f'], '/' :: '{' :: (name.toList ++ ['}'])⟩ ∧
      .field name.toList ∈ formatPartsFrom .text ('/' :: '{' :: (name.toList ++ ['}'])) ∧
      String.ofList (trim name.toList) = name ∧
      (fieldPath name).path?.toOption.any Option.isSome = true := by decide +kernel

/-- A field of an inherited name is filled in. -/
theorem not_leavesPathOpen_of_ambient {name : String} (h : name ∈ Ambient.names) :
    ¬LeavesPathOpen name := by
  obtain ⟨hsplit, hmem, hname, hpath⟩ := fieldPath_of_ambient name h
  have hfield : (fieldPath name).HasField name :=
    ⟨_, _, _, _, rfl, List.mem_singleton_self _, hsplit, rfl, hmem, hname⟩
  intro hopen
  cases hread : (fieldPath name).path? with
  | error f =>
    rw [hread] at hpath
    cases hpath
  | ok path =>
    have hdecodes := (fieldPath name).reads_path?.holds hread
    rw [(hopen _ hfield).mpr hdecodes] at hpath
    cases hpath

theorem leavesPathOpen_iff {name : String} (h : name ≠ versionName) :
    LeavesPathOpen name ↔ Ambient.isAmbient name = false := by
  constructor
  · intro hopen
    refine Bool.eq_false_iff.mpr fun hambient => ?_
    exact not_leavesPathOpen_of_ambient (List.contains_iff_mem.mp hambient) hopen
  · exact fun hambient e hfield =>
      ⟨e.reads_path?.holds, path?_of_hasField hfield h hambient⟩

end Python

/-! ## Profiles of a configuration -/

namespace Config

/-- A profile of the name is refused wherever the configuration that is found does not declare it. -/
def RefusesUndeclared (name : String) : Prop :=
  ∀ (files : Files) (asked : Option String) (directory : String),
    (∀ path file, findFile files asked directory = .ok (some path) → readFile files path = .ok file →
      name ∉ Fields.keys (Value.fieldsAt file "environments")) →
    ∃ f, load files asked directory (some name) = .error (.config f) ∧
      ∀ path file, findFile files asked directory = .ok (some path) →
        readFile files path = .ok file → f = .noEnvironment name path

section

variable {files : Files} {asked : Option String} {directory path name : String} {f : Failure}

theorem config_of_findFile (h : findFile files asked directory = .error f) :
    ∃ c, f = .config c := by
  unfold findFile at h
  split at h
  · cases h
  · cases h
  · dsimp only at h
    split at h
    · cases h
    · exact ⟨_, (Except.error.inj h).symm⟩

theorem config_of_readFile (h : readFile files path = .error f) : ∃ c, f = .config c := by
  rw [readFile] at h
  split at h
  · exact ⟨_, (Except.error.inj h).symm⟩
  · dsimp only at h
    split at h
    · cases h
    · exact ⟨_, (Except.error.inj h).symm⟩

theorem profile?_of_undeclared {file profiles : Fields}
    (hprofiles : Fields.get? file "environments" = some (.map profiles))
    (h : name ∉ Fields.keys profiles) :
    profile? file name = if Ambient.isAmbient name then some Settings.none else none := by
  have herase := Fields.get?_erase profiles Ambient.parentName name
  rw [Fields.get?_eq_none_iff.mpr h, ite_self, Fields.erase] at herase
  rw [profile?, hprofiles]
  dsimp only
  rw [herase]

theorem profile?_of_not_mem {file : Fields} (hambient : Ambient.isAmbient name = false)
    (h : name ∉ Fields.keys (Value.fieldsAt file "environments")) : profile? file name = none := by
  by_cases hdeclares : ∃ profiles, Fields.get? file "environments" = some (.map profiles)
  · obtain ⟨profiles, hprofiles⟩ := hdeclares
    rw [Value.fieldsAt_of_get? hprofiles] at h
    rw [profile?_of_undeclared hprofiles h, if_neg (Bool.eq_false_iff.mp hambient)]
  · rw [profile?]
    split
    · next hprofiles => exact absurd ⟨_, hprofiles⟩ hdeclares
    · rfl

theorem load_of_unreadable (hfind : findFile files asked directory = .ok (some path))
    (hread : readFile files path = .error f) (name : String) :
    load files asked directory (some name) = .error f := by
  rw [load, hfind]
  show (readFile files path >>= fun file => _) = _
  rw [hread]
  rfl

theorem load_of_readable {file : Fields} (hfind : findFile files asked directory = .ok (some path))
    (hread : readFile files path = .ok file) (name : String) :
    load files asked directory (some name) = match profile? file name with
      | none => .error (.config (.noEnvironment name path))
      | some settings => .ok (settings.onto (settingsOf file)).config := by
  rw [load, hfind]
  show (readFile files path >>= fun file => _) = _
  rw [hread]
  rfl

end

theorem refusesUndeclared_of_not_ambient {name : String}
    (hambient : Ambient.isAmbient name = false) : RefusesUndeclared name := by
  intro files asked directory h
  cases hfind : findFile files asked directory with
  | error f =>
    obtain ⟨c, rfl⟩ := config_of_findFile hfind
    refine ⟨c, ?_, nofun⟩
    rw [load, hfind]
    rfl
  | ok found =>
    cases found with
    | none =>
      refine ⟨.noFile name, ?_, nofun⟩
      rw [load, hfind]
      rfl
    | some path =>
      cases hread : readFile files path with
      | error f =>
        obtain ⟨c, rfl⟩ := config_of_readFile hread
        refine ⟨c, load_of_unreadable hfind hread _, ?_⟩
        rintro _ file ⟨⟩ hother
        rw [hread] at hother
        cases hother
      | ok file =>
        refine ⟨.noEnvironment name path, ?_, by rintro _ _ ⟨⟩ -; rfl⟩
        rw [load_of_readable hfind hread, profile?_of_not_mem hambient (h path file hfind hread)]

/-- A configuration file that declares one profile. -/
def singleProfile : Files := .dir [("swagger-sync.yaml", .file
"environments:
  dev:
    mode: fix
")]

def singleProfileFile : Fields :=
  [("environments", .map [("dev", .map [("mode", .str "fix")])])]

theorem findFile_singleProfile :
    findFile singleProfile none "/" = .ok (some "/swagger-sync.yaml") := by
  rfl

theorem readFile_singleProfile :
    readFile singleProfile "/swagger-sync.yaml" = .ok singleProfileFile := by
  rfl

theorem load_singleProfile_of_ambient {name : String} (h : Ambient.isAmbient name = true) :
    name ∉ Fields.keys (Value.fieldsAt singleProfileFile "environments") ∧
      ∃ c, load singleProfile none "/" (some name) = .ok c := by
  have hother : name ≠ "dev" := by
    rintro rfl
    exact absurd h (by decide)
  have hkeys : name ∉ Fields.keys (Value.fieldsAt singleProfileFile "environments") :=
    fun hmem => hother (List.mem_singleton.mp hmem)
  have hfound : profile? singleProfileFile name = some Settings.none := by
    rw [profile?_of_undeclared rfl hkeys, if_pos h]
  refine ⟨hkeys, (Settings.none.onto (settingsOf singleProfileFile)).config, ?_⟩
  rw [load_of_readable findFile_singleProfile readFile_singleProfile, hfound]

theorem refusesUndeclared_iff (name : String) :
    RefusesUndeclared name ↔ Ambient.isAmbient name = false := by
  refine ⟨fun hrefuses => Bool.eq_false_iff.mpr fun hambient => ?_,
    refusesUndeclared_of_not_ambient⟩
  obtain ⟨hkeys, c, hok⟩ := load_singleProfile_of_ambient hambient
  obtain ⟨f, herror, -⟩ := hrefuses singleProfile none "/" fun path file hfind hread => by
    rw [findFile_singleProfile] at hfind
    cases hfind
    rw [readFile_singleProfile] at hread
    cases hread
    exact hkeys
  rw [hok] at herror
  cases herror

end Config

/-! ## The look-ups side by side -/

/-- A field of a path, a profile, a schema and an excluded name are each looked up as if only what
was declared were there, exactly if no mapping answers to the name by itself.  As removed a name is
reported only where it was held, exactly if it is not the one that stands for the parent of every
mapping: at the other inherited names the removal stops. -/
theorem lookups_see_declared_iff (name : String) :
    (name ≠ Python.versionName →
        (Python.LeavesPathOpen name ↔ Ambient.isAmbient name = false)) ∧
      (Config.RefusesUndeclared name ↔ Ambient.isAmbient name = false) ∧
      (Document.ReportsUngenerated name ↔ Ambient.isAmbient name = false) ∧
      (Document.PassesOverAbsent name ↔ Ambient.isAmbient name = false) ∧
      (Document.RemovesOnlyHeld name ↔ name ≠ Ambient.parentName) :=
  ⟨Python.leavesPathOpen_iff, Config.refusesUndeclared_iff name,
    Document.reportsUngenerated_iff name, Document.passesOverAbsent_iff name,
    Document.removesOnlyHeld_iff name⟩

/-- Names that were declared nowhere and are found all the same. -/
theorem lookups_find_undeclared :
    ¬Python.LeavesPathOpen "constructor" ∧ ¬Config.RefusesUndeclared "constructor" ∧
      ¬Document.ReportsUngenerated "constructor" ∧ ¬Document.RemovesOnlyHeld "__proto__" := by
  have hambient : ¬Ambient.isAmbient "constructor" = false := by decide
  have hversion : "constructor" ≠ Python.versionName := by decide
  refine ⟨?_, ?_, ?_, ?_⟩
  · rwa [Python.leavesPathOpen_iff hversion]
  · rwa [Config.refusesUndeclared_iff]
  · rwa [Document.reportsUngenerated_iff]
  · rw [Document.removesOnlyHeld_iff]
    exact fun hne => hne rfl

end ApiSync
