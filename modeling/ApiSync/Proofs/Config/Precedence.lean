import ApiSync.Proofs.Config.Validity
/-!
# The layers of a configuration

A leaf of a configuration is a value that can be given on its own.  It can be given on the command
line, in the profile that is asked for and in the file around the profile, and most leaves have a
default.  The first of these in which the leaf is given is the one that counts, whatever the layers
say about the other leaves.

The profiles of a file are looked up as a mapping that answers to more names than it has keys, and
in which one of these names cannot be a key.  So a profile of that name is found empty, and what it
gives is left out without notice.
-/

namespace ApiSync

namespace Setting

variable {α β : Type}

def map (f : α → β) : Setting α → Setting β
  | .unset => .unset
  | .reset => .reset
  | .given v => .given (f v)

theorem map_onto (f : α → β) (top below : Setting α) :
    (top.onto below).map f = (top.map f).onto (below.map f) := by
  cases top <;> rfl

theorem value?_ofOption (o : Option α) : (ofOption o).value? = o := by
  cases o <;> rfl

theorem value?_ofOption_onto (o : Option α) (below : Setting α) :
    ((ofOption o).onto below).value? = o.or below.value? := by
  cases o <;> rfl

end Setting

namespace Config

/-! ## Leaves -/

/-- The values of a configuration that are given one by one. -/
inductive Leaf where
  | documentFile
  | handlersRoot
  | modelsRoot
  | projectRoot
  | mode
  | markerStart
  | markerEnd
  | ignoreFiles
  | strict
  | showOrphans
  | showIgnored
  | modelComponents
  | validate
  | failOnValidationErrors
  | failOnCoverageBelow
  | colour
  | coverageReport
  | coverageFormat
deriving DecidableEq, Repr

namespace Leaf

/-- The section of a file that holds the leaf, unless the leaf stands beside the sections. -/
def sectionName? : Leaf → Option String
  | .documentFile | .handlersRoot | .modelsRoot | .projectRoot | .mode => none
  | .markerStart | .markerEnd => some "markers"
  | .ignoreFiles => some "ignore"
  | .strict | .showOrphans | .showIgnored | .modelComponents | .validate
  | .failOnValidationErrors | .failOnCoverageBelow | .colour => some "options"
  | .coverageReport | .coverageFormat => some "output"

def key : Leaf → String
  | .documentFile => "swaggerFile"
  | .handlersRoot => "handlersRoot"
  | .modelsRoot => "modelsRoot"
  | .projectRoot => "projectRoot"
  | .mode => "mode"
  | .markerStart => "start"
  | .markerEnd => "end"
  | .ignoreFiles => "files"
  | .strict => "strict"
  | .showOrphans => "showOrphans"
  | .showIgnored => "showIgnored"
  | .modelComponents => "modelComponents"
  | .validate => "validate"
  | .failOnValidationErrors => "failOnValidationErrors"
  | .failOnCoverageBelow => "failOnCoverageBelow"
  | .colour => "color"
  | .coverageReport => "coverageReport"
  | .coverageFormat => "coverageFormat"

/-- What a file, or a profile, gives for the leaf. -/
def inFields (l : Leaf) (fields : Fields) : Option Value :=
  match l.sectionName? with
  | none => Fields.get? fields l.key
  | some name => Fields.get? (Value.fieldsAt fields name) l.key

theorem inFields_nil (l : Leaf) : l.inFields [] = none := by
  cases l <;> rfl

/-- What settings say about the leaf, as a value of a file. -/
def inSettings (l : Leaf) (s : Settings) : Setting Value :=
  match l with
  | .documentFile => s.documentFile.map .str
  | .handlersRoot => s.handlersRoot.map .str
  | .modelsRoot => s.modelsRoot.map .str
  | .projectRoot => s.projectRoot.map .str
  | .mode => s.mode.map fun m => .str m.name
  | .markerStart => s.markerStart.map .str
  | .markerEnd => s.markerEnd.map .str
  | .ignoreFiles => s.ignoreFiles.map Value.ofStrings
  | .strict => s.strict.map .bool
  | .showOrphans => s.showOrphans.map .bool
  | .showIgnored => s.showIgnored.map .bool
  | .modelComponents => s.modelComponents.map .bool
  | .validate => s.validate.map .bool
  | .failOnValidationErrors => s.failOnValidationErrors.map .bool
  | .failOnCoverageBelow => s.failOnCoverageBelow.map .num
  | .colour => s.colour.map fun m => .str m.name
  | .coverageReport => s.coverageReport.map .str
  | .coverageFormat => s.coverageFormat.map fun f => .str f.name

/-- The leaf of a full configuration, where it has one. -/
def inConfig (l : Leaf) (c : Config) : Option Value :=
  match l with
  | .documentFile => some (.str c.documentFile)
  | .handlersRoot => some (.str c.handlersRoot)
  | .modelsRoot => some (.str c.modelsRoot)
  | .projectRoot => c.projectRoot.map .str
  | .mode => some (.str c.mode.name)
  | .markerStart => some (.str c.markers.opening)
  | .markerEnd => some (.str c.markers.closing)
  | .ignoreFiles => some (Value.ofStrings c.ignoreFiles)
  | .strict => some (.bool c.options.strict)
  | .showOrphans => some (.bool c.options.showOrphans)
  | .showIgnored => some (.bool c.options.showIgnored)
  | .modelComponents => some (.bool c.options.modelComponents)
  | .validate => some (.bool c.options.validate)
  | .failOnValidationErrors => some (.bool c.options.failOnValidationErrors)
  | .failOnCoverageBelow => c.options.failOnCoverageBelow.map .num
  | .colour => some (.str c.options.colour.name)
  | .coverageReport => c.coverageReport.map .str
  | .coverageFormat => some (.str c.coverageFormat.name)

/-! ## Leaves of settings -/

theorem inSettings_none (l : Leaf) : l.inSettings Settings.none = .unset := by
  cases l <;> rfl

theorem inSettings_onto (l : Leaf) (top below : Settings) :
    l.inSettings (top.onto below) = (l.inSettings top).onto (l.inSettings below) := by
  cases l <;> exact Setting.map_onto ..

theorem some_getD {α β : Type} (f : α → β) (s : Setting α) (d : α) :
    some (f (s.value?.getD d)) = (s.map f).value?.or (some (f d)) := by
  cases s <;> rfl

theorem map_or {α β : Type} (f : α → β) (s : Setting α) (o : Option α) :
    (s.value?.or o).map f = (s.map f).value?.or (o.map f) := by
  cases s <;> rfl

/-- Settings put in a configuration take the place of what it holds. -/
theorem inConfig_applyTo (l : Leaf) (s : Settings) (c : Config) :
    l.inConfig (s.applyTo c) = (l.inSettings s).value?.or (l.inConfig c) := by
  cases l with
  | projectRoot => exact map_or Value.str ..
  | failOnCoverageBelow => exact map_or Value.num ..
  | coverageReport => exact map_or Value.str ..
  | documentFile => exact some_getD Value.str ..
  | handlersRoot => exact some_getD Value.str ..
  | modelsRoot => exact some_getD Value.str ..
  | markerStart => exact some_getD Value.str ..
  | markerEnd => exact some_getD Value.str ..
  | mode => exact some_getD (fun m : Mode => Value.str m.name) ..
  | colour => exact some_getD (fun m : Console.ColourMode => Value.str m.name) ..
  | coverageFormat => exact some_getD (fun f : Coverage.Format => Value.str f.name) ..
  | ignoreFiles => exact some_getD Value.ofStrings ..
  | strict => exact some_getD Value.bool ..
  | showOrphans => exact some_getD Value.bool ..
  | showIgnored => exact some_getD Value.bool ..
  | modelComponents => exact some_getD Value.bool ..
  | validate => exact some_getD Value.bool ..
  | failOnValidationErrors => exact some_getD Value.bool ..

theorem text_inj {a b : String} (h : some (Value.str a) = some (Value.str b)) : a = b :=
  Value.str.inj (Option.some.inj h)

theorem flag_inj {a b : Bool} (h : some (Value.bool a) = some (Value.bool b)) : a = b :=
  Value.bool.inj (Option.some.inj h)

theorem name_inj {α : Type} {name : α → String} (hname : Function.Injective name) {a b : α}
    (h : some (Value.str (name a)) = some (Value.str (name b))) : a = b :=
  hname (text_inj h)

theorem texts_inj {as bs : List String}
    (h : some (Value.ofStrings as) = some (Value.ofStrings bs)) : as = bs :=
  (List.map_inj_right fun _ _ => Value.str.inj).mp (Value.list.inj (Option.some.inj h))

/-- The leaves are all that a configuration holds. -/
theorem eq_of_inConfig {c d : Config} (h : ∀ l : Leaf, l.inConfig c = l.inConfig d) : c = d := by
  have hmode : Function.Injective Mode.name := fun a b => by cases a <;> cases b <;> decide
  have hcolour : Function.Injective Console.ColourMode.name := fun a b => by
    cases a <;> cases b <;> decide
  have hformat : Function.Injective Coverage.Format.name := fun a b => by
    cases a <;> cases b <;> decide
  have hstr : Function.Injective (Option.map Value.str) :=
    Option.map_injective fun _ _ => Value.str.inj
  have hnum : Function.Injective (Option.map Value.num) :=
    Option.map_injective fun _ _ => Value.num.inj
  obtain ⟨_, _, _, _, _, ⟨_, _⟩, _, ⟨_, _, _, _, _, _, _, _⟩, _, _⟩ := c
  obtain ⟨_, _, _, _, _, ⟨_, _⟩, _, ⟨_, _, _, _, _, _, _, _⟩, _, _⟩ := d
  simp only [Config.mk.injEq, Markers.mk.injEq, Options.mk.injEq]
  exact ⟨text_inj (h .documentFile), text_inj (h .handlersRoot), text_inj (h .modelsRoot),
    hstr (h .projectRoot), name_inj hmode (h .mode),
    ⟨text_inj (h .markerStart), text_inj (h .markerEnd)⟩, texts_inj (h .ignoreFiles),
    ⟨flag_inj (h .strict), flag_inj (h .showOrphans), flag_inj (h .showIgnored),
      flag_inj (h .modelComponents), flag_inj (h .validate), flag_inj (h .failOnValidationErrors),
      hnum (h .failOnCoverageBelow), name_inj hcolour (h .colour)⟩,
    hstr (h .coverageReport), name_inj hformat (h .coverageFormat)⟩

end Leaf

/-! ## Settings of a valid mapping -/

/-- A setting that is found is what stands in the mapping, provided that it can be read there. -/
theorem settingOf_map {α : Type} {read : Value → Option α} {write : α → Value} {fields : Fields}
    {key : String} (hnull : read .null = none)
    (h : ∀ v, Fields.get? fields key = some v → ReadsBack read write v) :
    (settingOf read fields key).map write = Setting.ofOption (Fields.get? fields key) := by
  rw [settingOf]
  cases hfound : Fields.get? fields key with
  | none => rfl
  | some v =>
    obtain ⟨a, hread, hwrite⟩ := h v hfound
    cases v with
    | null =>
      rw [hnull] at hread
      cases hread
    | _ => simp only [hread, Setting.ofOption, Setting.map, hwrite]

/-- The shape that a valid mapping has at a leaf. -/
def Leaf.shape : Leaf → Shape
  | .documentFile | .handlersRoot | .modelsRoot | .projectRoot | .markerStart | .markerEnd
  | .coverageReport => .text
  | .mode => .option ["check", "fix"]
  | .ignoreFiles => .texts
  | .strict | .showOrphans | .showIgnored | .modelComponents | .validate
  | .failOnValidationErrors => .flag
  | .failOnCoverageBelow => .percentage
  | .colour => .option ["auto", "always", "never"]
  | .coverageFormat => .option ["json", "text"]

/-- Every leaf has its place in the shape of a file. -/
theorem Leaf.mem_sections (l : Leaf) :
    match l.sectionName? with
    | none => (l.key, l.shape) ∈ sections
    | some name => ∃ inner, (name, .record inner) ∈ sections ∧ (l.key, l.shape) ∈ inner := by
  cases l <;> simp [Leaf.sectionName?, Leaf.key, Leaf.shape, sections]

theorem Valid.atLeaf {fields : Fields} (h : Valid fields) {l : Leaf} {v : Value}
    (hv : l.inFields fields = some v) : ∃ path, l.shape.issues path v = [] := by
  have hplace := l.mem_sections
  rw [Leaf.inFields] at hv
  cases hname : l.sectionName? with
  | none =>
    rw [hname] at hplace hv
    exact h _ hplace v hv
  | some name =>
    rw [hname] at hplace hv
    obtain ⟨inner, hsection, hkey⟩ := hplace
    exact h.inSection hsection _ hkey v hv

/-- What a valid mapping gives for a leaf is what its settings say. -/
theorem Leaf.inSettings_settingsOf {fields : Fields} (h : Valid fields) (l : Leaf) :
    l.inSettings (settingsOf fields) = Setting.ofOption (l.inFields fields) := by
  have hread : ∀ {v}, l.inFields fields = some v → ∃ path, l.shape.issues path v = [] :=
    fun hv => h.atLeaf hv
  cases l with
  | documentFile | handlersRoot | modelsRoot | projectRoot | markerStart | markerEnd
  | coverageReport =>
    exact settingOf_map rfl fun v hv => (hread hv).elim fun _ => readsBack_text
  | strict | showOrphans | showIgnored | modelComponents | validate | failOnValidationErrors =>
    exact settingOf_map rfl fun v hv => (hread hv).elim fun _ => readsBack_flag
  | ignoreFiles =>
    exact settingOf_map rfl fun v hv => (hread hv).elim fun _ => readsBack_texts
  | failOnCoverageBelow =>
    exact settingOf_map rfl fun v hv => (hread hv).elim fun _ => readsBack_percentage
  | mode =>
    have hnamed : ∀ n ∈ ["check", "fix"], ∃ a, modeNamed? n = some a ∧ a.name = n := by decide
    exact settingOf_map rfl fun v hv => (hread hv).elim fun _ => readsBack_option hnamed
  | colour =>
    have hnamed : ∀ n ∈ ["auto", "always", "never"],
        ∃ a, colourNamed? n = some a ∧ a.name = n := by decide
    exact settingOf_map rfl fun v hv => (hread hv).elim fun _ => readsBack_option hnamed
  | coverageFormat =>
    have hnamed : ∀ n ∈ ["json", "text"], ∃ a, formatNamed? n = some a ∧ a.name = n := by decide
    exact settingOf_map rfl fun v hv => (hread hv).elim fun _ => readsBack_option hnamed

/-! ## Precedence -/

/-- Each leaf is the first that the layers give: the overrides, the profile, the file around it and
the default.  A leaf without a default is absent if and only if none of the others gives it. -/
structure Precedes (c : Config) (overrides : Settings) (profile file : Fields) : Prop where
  first : ∀ l : Leaf, l.inConfig c = (l.inSettings overrides).value?.or
    ((l.inFields profile).or ((l.inFields file).or (l.inConfig Config.default)))
  absent : ∀ l : Leaf, l.inConfig Config.default = none →
    (l.inConfig c = none ↔ (l.inSettings overrides).value? = none ∧ l.inFields profile = none ∧
      l.inFields file = none)

theorem precedes_iff {c : Config} {overrides : Settings} {profile file : Fields} :
    Precedes c overrides profile file ↔
      ∀ l : Leaf, l.inConfig c = (l.inSettings overrides).value?.or
        ((l.inFields profile).or ((l.inFields file).or (l.inConfig Config.default))) := by
  refine ⟨Precedes.first, fun hfirst => ⟨hfirst, fun l hdefault => ?_⟩⟩
  rw [hfirst l, hdefault]
  simp only [Option.or_eq_none_iff, and_true]

/-- The layers leave nothing in a configuration open. -/
theorem Precedes.unique {c d : Config} {overrides : Settings} {profile file : Fields}
    (hc : Precedes c overrides profile file) (hd : Precedes d overrides profile file) : c = d :=
  Leaf.eq_of_inConfig fun l => (hc.first l).trans (hd.first l).symm

/-- The settings of a valid profile over those of a valid file. -/
theorem precedes_of_valid {profile file : Fields} (hprofile : Valid profile) (hfile : Valid file)
    (overrides : Settings) :
    Precedes (overrides.applyTo ((settingsOf profile).onto (settingsOf file)).config) overrides
      profile file := by
  refine precedes_iff.mpr fun l => ?_
  rw [Leaf.inConfig_applyTo, Settings.config, Leaf.inConfig_applyTo, Leaf.inSettings_onto,
    Leaf.inSettings_settingsOf hprofile, Leaf.inSettings_settingsOf hfile,
    Setting.value?_ofOption_onto, Setting.value?_ofOption, Option.or_assoc]

/-! ## The profile that is looked at -/

/-- The entries of the profile that is asked for, or nothing if none is. -/
inductive Asks (file : Fields) : Option String → Fields → Prop
  | nothing : Asks file none []
  | profile {name : String} {fields : Fields}
      (h : Fields.get? (Value.fieldsAt file "environments") name = some (.map fields)) :
      Asks file (some name) fields

/-- What is seen of a profile when it is looked up by its name. -/
def seen (name : Option String) (profile : Fields) : Fields :=
  if name = some Ambient.parentName then [] else profile

theorem inFields_seen {name : Option String} (h : name = some Ambient.parentName)
    (profile : Fields) (l : Leaf) : l.inFields (seen name profile) = none := by
  rw [seen, if_pos h, Leaf.inFields_nil]

/-- A profile of a file is found under its name, as far as it is seen there. -/
theorem profile?_of_get? {file profile : Fields} {name : String}
    (h : Fields.get? (Value.fieldsAt file "environments") name = some (.map profile)) :
    profile? file name = some (settingsOf (seen (some name) profile)) := by
  have herase := Fields.get?_erase (Value.fieldsAt file "environments") Ambient.parentName name
  rw [Fields.erase] at herase
  rw [profile?, Value.get?_of_fieldsAt h]
  dsimp only
  rw [herase]
  by_cases hname : name = Ambient.parentName
  · rw [if_pos hname.symm, hname]
    rfl
  · have hseen : seen (some name) profile = profile :=
      if_neg fun hsome => hname (Option.some.inj hsome)
    rw [if_neg (Ne.symm hname), h, hseen]
    rfl

theorem valid_of_asks {files : Files} {path : String} {file profile : Fields}
    {name : Option String} (h : readFile files path = .ok file) (hasks : Asks file name profile) :
    Valid profile := by
  cases hasks with
  | nothing => exact Valid.nil
  | profile hget =>
    obtain ⟨profiles, hmap, hprofiles⟩ := profiles_of_readFile h (Value.get?_of_fieldsAt hget)
    rw [Value.map.inj hmap] at hget
    obtain ⟨fields, hfields, hvalid⟩ := hprofiles _ (Fields.mem_of_get? hget)
    cases hfields
    exact hvalid

section

variable {files : Files} {asked name : Option String} {directory path : String}
  {file profile : Fields}

theorem load_of_asks (hfind : findFile files asked directory = .ok (some path))
    (hread : readFile files path = .ok file) (hasks : Asks file name profile) :
    load files asked directory name =
      .ok ((settingsOf (seen name profile)).onto (settingsOf file)).config := by
  refine bind_eq_ok.mpr ⟨some path, hfind, bind_eq_ok.mpr ⟨file, hread, ?_⟩⟩
  cases hasks with
  | nothing => rfl
  | profile hget =>
    dsimp only
    rw [profile?_of_get? hget]
    rfl

/-- Loading a valid file gives a configuration whose leaves are taken from what is seen of the
profile, then from the file, then from the defaults.  They are taken from the whole profile exactly
if its name is not the one under which nothing is seen of it, or if each leaf that it gives there
comes out the same without it. -/
theorem load_precedes_iff (hfind : findFile files asked directory = .ok (some path))
    (hread : readFile files path = .ok file) (hasks : Asks file name profile) :
    ∃ c, load files asked directory name = .ok c ∧
      (∀ overrides : Settings, Precedes (overrides.applyTo c) overrides (seen name profile) file) ∧
      ((∀ overrides : Settings, Precedes (overrides.applyTo c) overrides profile file) ↔
        (name = some Ambient.parentName → ∀ (l : Leaf) (v : Value), l.inFields profile = some v →
          (l.inFields file).or (l.inConfig Config.default) = some v)) := by
  have hprofile : Valid profile := valid_of_asks hread hasks
  have hseen : Valid (seen name profile) := by
    rw [seen]
    split
    · exact Valid.nil
    · exact hprofile
  have hlayers := precedes_of_valid hseen (valid_of_readFile hread)
  refine ⟨_, load_of_asks hfind hread hasks, hlayers, ?_, ?_⟩
  · intro hall hname l v hv
    -- Without overrides the leaf is read once with the profile and once without it.
    have hwith := (hall Settings.none).first l
    have hwithout := (hlayers Settings.none).first l
    rw [inFields_seen hname, Leaf.inSettings_none] at hwithout
    rw [hv, Leaf.inSettings_none] at hwith
    exact hwithout.symm.trans hwith
  · intro hsame overrides
    by_cases hname : name = some Ambient.parentName
    · refine precedes_iff.mpr fun l => ?_
      rw [(hlayers overrides).first l, inFields_seen hname, Option.none_or]
      cases hv : l.inFields profile with
      | none => rw [Option.none_or]
      | some v => rw [hsame hname l v hv, Option.some_or]
    · have hwhole : seen name profile = profile := if_neg hname
      rw [hwhole] at hlayers ⊢
      exact hlayers overrides

end

section Example

/-- A file with two profiles, one of them under a name that every mapping answers to. -/
def profiledTree : Files := .dir [("swagger-sync.yaml", .file
"options:
  strict: true
environments:
  dev:
    mode: fix
  __proto__:
    mode: fix
")]

def profiledFile : Fields :=
  [("options", .map [("strict", .bool true)]),
    ("environments", .map [("dev", .map [("mode", .str "fix")]),
      ("__proto__", .map [("mode", .str "fix")])])]

theorem findFile_profiledTree :
    findFile profiledTree none "/" = .ok (some "/swagger-sync.yaml") := by
  rfl

theorem readFile_profiledTree :
    readFile profiledTree "/swagger-sync.yaml" = .ok profiledFile := by
  rfl

theorem load_precedes_of_profile :
    findFile profiledTree none "/" = .ok (some "/swagger-sync.yaml") ∧
      readFile profiledTree "/swagger-sync.yaml" = .ok profiledFile ∧
      Asks profiledFile (some "dev") [("mode", .str "fix")] ∧
      ∃ c, load profiledTree none "/" (some "dev") = .ok c ∧
        ∀ overrides : Settings,
          Precedes (overrides.applyTo c) overrides [("mode", .str "fix")] profiledFile := by
  have hasks : Asks profiledFile (some "dev") [("mode", .str "fix")] := .profile rfl
  refine ⟨findFile_profiledTree, readFile_profiledTree, hasks, ?_⟩
  obtain ⟨c, hload, -, hiff⟩ := load_precedes_iff findFile_profiledTree readFile_profiledTree hasks
  exact ⟨c, hload, hiff.mpr fun hname => absurd hname (by decide)⟩

/-- The profile gives the mode `fix`, and the configuration has the mode `check`. -/
theorem not_precedes_of_parentName :
    readFile profiledTree "/swagger-sync.yaml" = .ok profiledFile ∧
      Asks profiledFile (some "__proto__") [("mode", .str "fix")] ∧
      ∃ c, load profiledTree none "/" (some "__proto__") = .ok c ∧ c.mode = .check ∧
        ¬Precedes (Settings.none.applyTo c) Settings.none [("mode", .str "fix")] profiledFile := by
  have hasks : Asks profiledFile (some "__proto__") [("mode", .str "fix")] := .profile rfl
  refine ⟨readFile_profiledTree, hasks, _,
    load_of_asks findFile_profiledTree readFile_profiledTree hasks, rfl, fun h => ?_⟩
  have hmode : some (Value.str "check") = some (Value.str "fix") := h.first .mode
  exact absurd (Value.str.inj (Option.some.inj hmode)) (by decide)

end Example

end Config
end ApiSync
