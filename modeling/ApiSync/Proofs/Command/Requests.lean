import Mathlib.Tactic.Choose
import ApiSync.Proofs.Command.Groups
import ApiSync.Proofs.Config.Precedence
/-!
# Requests and the lines that write them

A request is what can be asked for on a command line: a command, a configuration file, a profile and
overrides.  A row of groups writes it if the last value of each option is the one that is asked for.
Every request that can be expressed has such a row, and whichever it is, and in whatever order its
groups stand, the line is understood as the request.
-/

namespace ApiSync

theorem Setting.eq_of_map {α : Type} {f : α → Value} (hf : Function.Injective f) {s : Setting α}
    {o : Option α} (h : s.map f = Setting.ofOption (o.map f)) : s = Setting.ofOption o := by
  cases s with
  | unset =>
    cases o with
    | none => rfl
    | some b => cases h
  | reset => cases o <;> cases h
  | given a =>
    cases o with
    | none => cases h
    | some b => exact congrArg Setting.given (hf (Setting.given.inj h))

namespace Command

/-! ## What the options give -/

/-- The last of several values counts. -/
def lastOf (read : String → Value) (texts : List String) : Setting Value :=
  .ofOption (texts.getLast?.map read)

def allOf (texts : List String) : Setting Value :=
  if texts = [] then .unset else .given (.ofStrings texts)

/-- The leaf of the configuration that an option gives, and how it is read from the values.  The
configuration file and the profile are no leaves. -/
def ValueOption.gives? : ValueOption → Option (Config.Leaf × (List String → Setting Value))
  | .config | .profile => none
  | .documentFile => some (.documentFile, lastOf .str)
  | .handlersRoot => some (.handlersRoot, lastOf .str)
  | .modelsRoot => some (.modelsRoot, lastOf .str)
  | .projectRoot => some (.projectRoot, lastOf .str)
  | .markerStart => some (.markerStart, lastOf .str)
  | .markerEnd => some (.markerEnd, lastOf .str)
  | .ignoreFile => some (.ignoreFiles, allOf)
  | .coverageReport => some (.coverageReport, lastOf .str)
  | .coverageFormat => some (.coverageFormat, lastOf .str)
  | .failOnCoverageBelow => some (.failOnCoverageBelow, lastOf fun text => .num (Number.ofText text))
  | .colour => some (.colour, lastOf .str)

/-- The leaf that an option gives by standing alone, and the value. -/
def FlagOption.gives? : FlagOption → Option (Config.Leaf × Bool)
  | .help => none
  | .strict => some (.strict, true)
  | .showOrphans => some (.showOrphans, true)
  | .showIgnored => some (.showIgnored, true)
  | .noModelComponents => some (.modelComponents, false)
  | .validate => some (.validate, true)
  | .failOnValidationErrors => some (.failOnValidationErrors, true)

def ValueOption.all : List ValueOption :=
  [.config, .profile, .documentFile, .handlersRoot, .modelsRoot, .projectRoot, .markerStart,
    .markerEnd, .ignoreFile, .coverageReport, .coverageFormat, .failOnCoverageBelow, .colour]

def FlagOption.all : List FlagOption :=
  [.help, .strict, .showOrphans, .showIgnored, .noModelComponents, .validate,
    .failOnValidationErrors]

theorem ValueOption.mem_all (option : ValueOption) : option ∈ all := by cases option <;> decide

theorem FlagOption.mem_all (option : FlagOption) : option ∈ all := by cases option <;> decide

theorem gives?_eq_none {option : ValueOption} (h : option.gives? = none) :
    option = .config ∨ option = .profile := by
  cases option with
  | config => exact Or.inl rfl
  | profile => exact Or.inr rfl
  | _ => cases h

/-! ## Requests -/

/-- What can follow an option as its value. -/
def IsValue (text : String) : Prop := Text.hasPrefix text "--" = false

instance (text : String) : Decidable (IsValue text) := inferInstanceAs (Decidable (_ = false))

/-- The mode of the overrides is left open: it comes with the command. -/
structure Request where
  command : Option Name
  config : Option String
  profile : Option String
  overrides : Settings

namespace Request

/-- To check and to fix are modes as well as commands. -/
def mode (r : Request) : Setting Mode :=
  .ofOption (r.command.bind fun name => Config.modeNamed? name.text)

/-- The request as it is to be understood. -/
def line (r : Request) : Line where
  command := r.command.getD .check
  config := r.config
  profile := r.profile
  overrides := { r.overrides with mode := r.mode }

/-- What each option would have to give can be given by values for it. -/
structure Expressible (r : Request) : Prop where
  command : r.command ≠ some .help
  config : ∀ text ∈ r.config, IsValue text
  profile : ∀ text ∈ r.profile, IsValue text
  values : ∀ (option : ValueOption) (l : Config.Leaf) (read : List String → Setting Value),
    option.gives? = some (l, read) →
      ∃ texts : List String, (∀ text ∈ texts, IsValue text) ∧ l.inSettings r.overrides = read texts
  flags : ∀ (option : FlagOption) (l : Config.Leaf) (value : Bool),
    option.gives? = some (l, value) →
      l.inSettings r.overrides = .unset ∨ l.inSettings r.overrides = .given (.bool value)
  threshold : ∀ n, r.overrides.failOnCoverageBelow = .given n →
    Number.zero.le n = true ∧ n.le (Number.ofNat 100) = true

end Request

/-- A row of groups asks for the request and for nothing else.  An option may be repeated; of the
values that are given for it the last one counts, and of ignored files all in their order. -/
structure Writes (groups : List Group) (r : Request) : Prop where
  command : commandsIn groups = r.command.toList
  noHelp : .help ∉ flagsIn groups
  config : (valuesIn groups .config).getLast? = r.config
  profile : (valuesIn groups .profile).getLast? = r.profile
  values : ∀ (option : ValueOption) (l : Config.Leaf) (read : List String → Setting Value),
    option.gives? = some (l, read) → l.inSettings r.overrides = read (valuesIn groups option)
  flags : ∀ (option : FlagOption) (l : Config.Leaf) (value : Bool),
    option.gives? = some (l, value) →
      l.inSettings r.overrides = if option ∈ flagsIn groups then .given (.bool value) else .unset

variable {groups others : List Group} {r : Request}

/-- The groups may be put in any order in which the values of each option keep theirs. -/
theorem Writes.perm (h : Writes groups r) (hperm : others.Perm groups)
    (hvalues : ∀ option, valuesIn others option = valuesIn groups option) : Writes others r where
  command := by
    have hcommands : (commandsIn others).Perm r.command.toList := h.command ▸ hperm.filterMap _
    cases hc : r.command with
    | none =>
      rw [hc] at hcommands
      exact List.perm_nil.mp hcommands
    | some name =>
      rw [hc] at hcommands
      exact List.perm_singleton.mp hcommands
  noHelp hmem := h.noHelp ((hperm.filterMap _).mem_iff.mp hmem)
  config := by rw [hvalues, h.config]
  profile := by rw [hvalues, h.profile]
  values option l read hgives := by rw [hvalues, h.values option l read hgives]
  flags option l value hgives := by
    have hmem : option ∈ flagsIn others ↔ option ∈ flagsIn groups := (hperm.filterMap _).mem_iff
    rw [h.flags option l value hgives]
    simp only [hmem]

/-! ## Writing a request -/

theorem pairsIn_append (groups others : List Group) :
    pairsIn (groups ++ others) = pairsIn groups ++ pairsIn others := List.filterMap_append

theorem commandsIn_append (groups others : List Group) :
    commandsIn (groups ++ others) = commandsIn groups ++ commandsIn others := List.filterMap_append

theorem flagsIn_append (groups others : List Group) :
    flagsIn (groups ++ others) = flagsIn groups ++ flagsIn others := List.filterMap_append

theorem valuesIn_append (groups others : List Group) (option : ValueOption) :
    valuesIn (groups ++ others) option = valuesIn groups option ++ valuesIn others option := by
  rw [valuesIn, pairsIn_append, List.filter_append, List.map_append, valuesIn, valuesIn]

theorem exists_valueWord (option : ValueOption) :
    ∃ word, Fields.get? valueOptions word = some option := by
  have hwritten : ∀ option ∈ ValueOption.all, ∃ e ∈ valueOptions,
      Fields.get? valueOptions e.1 = some option := by decide
  obtain ⟨e, -, he⟩ := hwritten option option.mem_all
  exact ⟨e.1, he⟩

theorem exists_flagWord (option : FlagOption) :
    ∃ word, Fields.get? flagOptions word = some option := by
  have hwritten : ∀ option ∈ FlagOption.all, ∃ e ∈ flagOptions,
      Fields.get? flagOptions e.1 = some option := by decide
  obtain ⟨e, -, he⟩ := hwritten option option.mem_all
  exact ⟨e.1, he⟩

theorem valuesIn_value (option : ValueOption) (word text : String)
    (hword : Fields.get? valueOptions word = some option)
    (htext : Text.hasPrefix text "--" = false) (groups : List Group) (other : ValueOption) :
    valuesIn (.value option word text hword htext :: groups) other =
      if option = other then text :: valuesIn groups other else valuesIn groups other := by
  show (((option, text) :: pairsIn groups).filter (·.1 = other)).map (·.2) = _
  rw [List.filter_cons]
  by_cases hother : option = other
  · rw [if_pos hother, if_pos (decide_eq_true hother)]
    rfl
  · rw [if_neg hother, if_neg (by simpa using hother)]
    rfl

/-- Values for one option. -/
theorem exists_row_of_option (option : ValueOption) {texts : List String}
    (h : ∀ text ∈ texts, IsValue text) : ∃ groups, commandsIn groups = [] ∧ flagsIn groups = [] ∧
      ∀ other, valuesIn groups other = if other = option then texts else [] := by
  induction texts with
  | nil => exact ⟨[], rfl, rfl, fun other => (ite_self []).symm⟩
  | cons text texts ih =>
    obtain ⟨groups, hcommands, hflags, hvalues⟩ := ih fun t ht => h t (List.mem_cons_of_mem text ht)
    obtain ⟨word, hword⟩ := exists_valueWord option
    have htext : Text.hasPrefix text "--" = false := h text List.mem_cons_self
    refine ⟨.value option word text hword htext :: groups, hcommands, hflags, fun other => ?_⟩
    rw [valuesIn_value, hvalues]
    by_cases hother : other = option
    · rw [if_pos hother.symm, if_pos hother, if_pos hother]
    · rw [if_neg (Ne.symm hother), if_neg hother, if_neg hother]

/-- Values for several options. -/
theorem exists_row_of_options {texts : ValueOption → List String}
    (h : ∀ option, ∀ text ∈ texts option, IsValue text) {options : List ValueOption}
    (hnodup : options.Nodup) : ∃ groups, commandsIn groups = [] ∧ flagsIn groups = [] ∧
      ∀ option, valuesIn groups option = if option ∈ options then texts option else [] := by
  induction options with
  | nil => exact ⟨[], rfl, rfl, fun _ => rfl⟩
  | cons first options ih =>
    obtain ⟨hfirst, hrest⟩ := List.nodup_cons.mp hnodup
    obtain ⟨groups, hcommands, hflags, hvalues⟩ := ih hrest
    obtain ⟨row, hrowCommands, hrowFlags, hrowValues⟩ := exists_row_of_option first (h first)
    refine ⟨row ++ groups, ?_, ?_, fun option => ?_⟩
    · rw [commandsIn_append, hrowCommands, hcommands, List.nil_append]
    · rw [flagsIn_append, hrowFlags, hflags, List.nil_append]
    · rw [valuesIn_append, hrowValues, hvalues]
      by_cases hoption : option = first
      · subst hoption
        rw [if_pos rfl, if_neg hfirst, if_pos List.mem_cons_self, List.append_nil]
      · simp only [hoption, if_false, List.nil_append, List.mem_cons, false_or]

theorem exists_row_of_flags (flags : List FlagOption) :
    ∃ groups, commandsIn groups = [] ∧ pairsIn groups = [] ∧ flagsIn groups = flags := by
  induction flags with
  | nil => exact ⟨[], rfl, rfl, rfl⟩
  | cons flag flags ih =>
    obtain ⟨groups, hcommands, hpairs, hflags⟩ := ih
    obtain ⟨word, hword⟩ := exists_flagWord flag
    exact ⟨.flag flag word hword :: groups, hcommands, hpairs, congrArg (flag :: ·) hflags⟩

theorem exists_row_of_command (command : Option Name) :
    ∃ groups, commandsIn groups = command.toList ∧ pairsIn groups = [] ∧ flagsIn groups = [] := by
  cases command with
  | none => exact ⟨[], rfl, rfl, rfl⟩
  | some name => exact ⟨[.command name], rfl, rfl, rfl⟩

/-- Any values, any options that stand alone and any command can be put in a row. -/
theorem exists_row (command : Option Name) {texts : ValueOption → List String}
    (h : ∀ option, ∀ text ∈ texts option, IsValue text) (flags : List FlagOption) :
    ∃ groups, commandsIn groups = command.toList ∧ flagsIn groups = flags ∧
      ∀ option, valuesIn groups option = texts option := by
  obtain ⟨first, hcommand, hfirstPairs, hfirstFlags⟩ := exists_row_of_command command
  obtain ⟨last, hlastCommands, hlastPairs, hflags⟩ := exists_row_of_flags flags
  have hnodup : ValueOption.all.Nodup := by decide
  obtain ⟨middle, hcommands, hmiddleFlags, hvalues⟩ := exists_row_of_options h hnodup
  refine ⟨first ++ (middle ++ last), ?_, ?_, fun option => ?_⟩
  · rw [commandsIn_append, commandsIn_append, hcommand, hcommands, hlastCommands, List.append_nil,
      List.append_nil]
  · rw [flagsIn_append, flagsIn_append, hfirstFlags, hmiddleFlags, hflags, List.nil_append,
      List.nil_append]
  · rw [valuesIn_append, valuesIn_append, hvalues, if_pos option.mem_all, valuesIn, hfirstPairs,
      valuesIn, hlastPairs]
    exact List.append_nil _

/-- The values of an option that a request asks for, as it can be expressed. -/
theorem Request.Expressible.exists_texts (h : r.Expressible) (option : ValueOption) :
    ∃ texts : List String, (∀ text ∈ texts, IsValue text) ∧
      (option = .config → texts.getLast? = r.config) ∧
      (option = .profile → texts.getLast? = r.profile) ∧
      ∀ l read, option.gives? = some (l, read) → l.inSettings r.overrides = read texts := by
  cases hgives : option.gives? with
  | some given =>
    obtain ⟨texts, htexts, hread⟩ := h.values option given.1 given.2 hgives
    refine ⟨texts, htexts, ?_, ?_, ?_⟩
    · rintro rfl
      cases hgives
    · rintro rfl
      cases hgives
    · rintro l read ⟨⟩
      exact hread
  | none =>
    rcases gives?_eq_none hgives with rfl | rfl
    · exact ⟨r.config.toList, fun text ht => h.config text (Option.mem_toList.mp ht),
        fun _ => by cases r.config <;> rfl, nofun, nofun⟩
    · exact ⟨r.profile.toList, fun text ht => h.profile text (Option.mem_toList.mp ht), nofun,
        fun _ => by cases r.profile <;> rfl, nofun⟩

/-- The options that stand alone and give a setting the value that the request has for it. -/
theorem exists_flags (r : Request) : ∃ flags : List FlagOption, ∀ option, option ∈ flags ↔
    ∃ l value, option.gives? = some (l, value) ∧
      l.inSettings r.overrides = .given (.bool value) := by
  classical
  refine ⟨FlagOption.all.filter fun option => decide (∃ l value,
    option.gives? = some (l, value) ∧ l.inSettings r.overrides = .given (.bool value)), ?_⟩
  intro option
  rw [List.mem_filter, decide_eq_true_iff]
  exact and_iff_right option.mem_all

theorem exists_writes (h : r.Expressible) : ∃ groups, Writes groups r := by
  choose texts htexts hconfig hprofile hread using h.exists_texts
  obtain ⟨wanted, hwanted⟩ := exists_flags r
  obtain ⟨groups, hcommand, hflags, hvalues⟩ := exists_row r.command htexts wanted
  refine ⟨groups, hcommand, ?_, ?_, ?_, fun option l read hgives => ?_,
    fun option l value hgives => ?_⟩
  · rw [hflags, hwanted]
    rintro ⟨l, value, hgives, -⟩
    cases hgives
  · rw [hvalues, hconfig _ rfl]
  · rw [hvalues, hprofile _ rfl]
  · rw [hvalues, hread option l read hgives]
  · rw [hflags]
    by_cases hmem : option ∈ wanted
    · obtain ⟨l', value', hgives', hset⟩ := (hwanted option).mp hmem
      rw [hgives] at hgives'
      cases hgives'
      rw [if_pos hmem, hset]
    · rw [if_neg hmem]
      exact (h.flags option l value hgives).resolve_right fun hset =>
        hmem ((hwanted option).mpr ⟨l, value, hgives, hset⟩)

/-! ## Understanding a row -/

/-- The last value is found from the end. -/
theorem value?_eq_getLast? (r : Raw) (option : ValueOption) :
    r.value? option = (r.allValues option).getLast? := by
  rw [Raw.value?, Raw.allValues, List.getLast?_map, List.getLast?_eq_head?_reverse,
    ← List.filter_reverse, List.head?_filter]

/-- An option whose values have names is read back from the name. -/
theorem named_of_map {α : Type} {name : α → String} {read : String → Option α}
    (hread : ∀ a, read (name a) = some a) {o : Option String} {s : Setting α}
    (h : s.map (fun a => Value.str (name a)) = Setting.ofOption (o.map .str))
    (error : String → UsageError) : named o read error = .ok s := by
  cases o with
  | none =>
    cases s with
    | unset => rfl
    | _ => cases h
  | some text =>
    cases s with
    | given a =>
      have htext : name a = text := Value.str.inj (Setting.given.inj h)
      rw [named, ← htext, hread]
      rfl
    | _ => cases h

theorem threshold?_ofText {text : String} (hlow : Number.zero.le (Number.ofText text) = true)
    (hhigh : (Number.ofText text).le (Number.ofNat 100) = true) :
    threshold? text = some (Number.ofText text) := by
  rw [threshold?]
  generalize Number.ofText text = n at hlow hhigh
  simp only [Number.le, Bool.and_eq_true, Bool.not_eq_true'] at hlow hhigh
  have hfinite : n.isFinite = true := by
    cases n with
    | nan => cases hlow.1.2
    | infinite negative =>
      cases negative with
      | true => cases hlow.2
      | false => exact absurd hhigh.2 (by decide)
    | finite => rfl
  simp only [hfinite, hlow.2, hhigh.2, Bool.not_true, Bool.or_self, Bool.false_eq_true, if_false]

theorem named_threshold {o : Option String} {s : Setting Number}
    (h : s.map Value.num = Setting.ofOption (o.map fun text => .num (Number.ofText text)))
    (hrange : ∀ n, s = .given n → Number.zero.le n = true ∧ n.le (Number.ofNat 100) = true)
    (error : String → UsageError) : named o threshold? error = .ok s := by
  cases o with
  | none =>
    cases s with
    | unset => rfl
    | _ => cases h
  | some text =>
    cases s with
    | given n =>
      have hn : n = Number.ofText text := Value.num.inj (Setting.given.inj h)
      subst hn
      obtain ⟨hlow, hhigh⟩ := hrange _ rfl
      rw [named, threshold?_ofText hlow hhigh]
      rfl
    | _ => cases h

/-- A row that asks for nothing else comes to the command of the request. -/
theorem Writes.foldlM_commandAfter (h : Writes groups r) :
    groups.foldlM commandAfter none = .ok r.command := by
  have hcommands := h.command
  cases hc : r.command with
  | none =>
    rw [hc] at hcommands
    rw [foldlM_commandAfter_of_none hcommands, if_neg h.noHelp]
  | some name =>
    rw [hc] at hcommands
    obtain ⟨before, group, after, rfl, hbefore, hgroup, hafter⟩ :=
      List.filterMap_eq_cons_iff.mp hcommands
    have hgroups := h.noHelp
    rw [flagsIn_append, List.mem_append, not_or] at hgroups
    have hnone : commandsIn before = [] := List.filterMap_eq_nil_iff.mpr hbefore
    cases group with
    | command name' =>
      obtain rfl := Option.some.inj hgroup
      have hnoHelp : .help ∉ flagsIn after := hgroups.2
      rw [List.foldlM_append, foldlM_commandAfter_of_none hnone, if_neg hgroups.1]
      refine (foldlM_commandAfter_of_none hafter (some name')).trans ?_
      rw [if_neg hnoHelp]
    | _ => cases hgroup

/-- The raw line of a row. -/
def rawOf (groups : List Group) (command : Option Name) : Raw :=
  ⟨command, pairsIn groups, (flagsIn groups).filter (· ≠ .help)⟩

theorem value?_rawOf (groups : List Group) (command : Option Name) (option : ValueOption) :
    (rawOf groups command).value? option = (valuesIn groups option).getLast? :=
  value?_eq_getLast? _ option

theorem flagSetting_rawOf (groups : List Group) (command : Option Name) {option : FlagOption}
    (h : option ≠ .help) (value : Bool) : flagSetting (rawOf groups command) option value =
      if option ∈ flagsIn groups then .given value else .unset := by
  have hmem : (rawOf groups command).flags.contains option = true ↔ option ∈ flagsIn groups := by
    rw [List.contains_iff_mem]
    show option ∈ (flagsIn groups).filter (· ≠ .help) ↔ _
    rw [List.mem_filter]
    exact and_iff_left (decide_eq_true h)
  rw [flagSetting]
  simp only [hmem]

section

variable (command : Option Name)

/-- The last value of an option, where the leaf is a text. -/
theorem ofOption_value?_rawOf {option : ValueOption} {s : Setting String}
    (h : s.map Value.str = lastOf .str (valuesIn groups option)) :
    Setting.ofOption ((rawOf groups command).value? option) = s := by
  have hstr : Function.Injective Value.str := fun _ _ => Value.str.inj
  rw [value?_rawOf]
  exact (Setting.eq_of_map hstr h).symm

theorem flagSetting_eq_of_map {option : FlagOption} {value : Bool} {s : Setting Bool}
    (hoption : option ≠ .help)
    (h : s.map Value.bool = if option ∈ flagsIn groups then .given (.bool value) else .unset) :
    flagSetting (rawOf groups command) option value = s := by
  have hbool : Function.Injective Value.bool := fun _ _ => Value.bool.inj
  rw [flagSetting_rawOf groups command hoption]
  split at h
  · next hmem =>
    rw [if_pos hmem]
    exact (Setting.eq_of_map (o := some value) hbool h).symm
  · next hmem =>
    rw [if_neg hmem]
    exact (Setting.eq_of_map (o := none) hbool h).symm

/-- All values of an option in their order; without any the leaf is left as it is. -/
theorem allValues_eq_of_map {option : ValueOption} {s : Setting (List String)}
    (h : s.map Value.ofStrings = allOf (valuesIn groups option)) :
    (if (rawOf groups command).allValues option = [] then Setting.unset
      else .given ((rawOf groups command).allValues option)) = s := by
  have hinj : Function.Injective Value.ofStrings := fun as bs heq =>
    Config.Leaf.texts_inj (congrArg some heq)
  show (if valuesIn groups option = [] then Setting.unset
    else .given (valuesIn groups option)) = s
  rw [allOf] at h
  split at h
  · next hnil =>
    rw [if_pos hnil]
    exact (Setting.eq_of_map (o := none) hinj h).symm
  · next hsome =>
    rw [if_neg hsome]
    exact (Setting.eq_of_map (o := some _) hinj h).symm

end

theorem Request.modeOf_command (r : Request) : modeOf r.command = r.mode := by
  rw [Request.mode]
  cases r.command with
  | none => rfl
  | some name => cases name <;> rfl

/-- Each option lands in its own leaf. -/
theorem Writes.line_rawOf (h : Writes groups r) (he : r.Expressible) :
    (rawOf groups r.command).line = .ok r.line := by
  have hreadFormat : ∀ f : Coverage.Format, Config.formatNamed? f.name = some f := fun f => by
    cases f <;> rfl
  have hreadColour : ∀ m : Console.ColourMode, Config.colourNamed? m.name = some m := fun m => by
    cases m <;> rfl
  have hformat := named_of_map hreadFormat (h.values .coverageFormat _ _ rfl) .badFormat
  have hcolour := named_of_map hreadColour (h.values .colour _ _ rfl) .badColor
  have hthreshold := named_threshold (h.values .failOnCoverageBelow _ _ rfl) he.threshold
    .badThreshold
  have hignored := allValues_eq_of_map r.command (h.values .ignoreFile _ _ rfl)
  rw [Raw.line, value?_rawOf, value?_rawOf, value?_rawOf, hformat, hcolour, hthreshold]
  refine congrArg Except.ok ?_
  simp only [Request.line, Line.mk.injEq]
  refine ⟨rfl, (value?_rawOf ..).trans h.config, (value?_rawOf ..).trans h.profile, ?_⟩
  simp only [Settings.mk.injEq]
  exact ⟨ofOption_value?_rawOf _ (h.values .documentFile _ _ rfl),
    ofOption_value?_rawOf _ (h.values .handlersRoot _ _ rfl),
    ofOption_value?_rawOf _ (h.values .modelsRoot _ _ rfl),
    ofOption_value?_rawOf _ (h.values .projectRoot _ _ rfl), r.modeOf_command,
    ofOption_value?_rawOf _ (h.values .markerStart _ _ rfl),
    ofOption_value?_rawOf _ (h.values .markerEnd _ _ rfl), hignored,
    flagSetting_eq_of_map _ (by decide) (h.flags .strict _ _ rfl),
    flagSetting_eq_of_map _ (by decide) (h.flags .showOrphans _ _ rfl),
    flagSetting_eq_of_map _ (by decide) (h.flags .showIgnored _ _ rfl),
    flagSetting_eq_of_map _ (by decide) (h.flags .noModelComponents _ _ rfl),
    flagSetting_eq_of_map _ (by decide) (h.flags .validate _ _ rfl),
    flagSetting_eq_of_map _ (by decide) (h.flags .failOnValidationErrors _ _ rfl), trivial,
    trivial, ofOption_value?_rawOf _ (h.values .coverageReport _ _ rfl), trivial⟩

theorem Request.mode_eq_given_iff (r : Request) (m : Mode) :
    r.mode = .given m ↔ r.command.map Name.text = some m.name := by
  rw [Request.mode]
  cases r.command with
  | none => simp [Setting.ofOption]
  | some name => cases name <;> cases m <;> decide

theorem Request.mode_ne_unset_iff (r : Request) :
    r.mode ≠ .unset ↔ r.command = some .check ∨ r.command = some .fix := by
  rw [Request.mode]
  cases r.command with
  | none => simp [Setting.ofOption]
  | some name => cases name <;> decide

/-- A request that can be expressed is written by a row of groups, and by every other order of its
groups in which the values of each option keep theirs.  However it is written, it is read back as it
is, with a mode exactly if the command is to check or to fix, and then with that one. -/
theorem parse_reads_back (h : r.Expressible) :
    (∃ groups, Writes groups r) ∧
      (∀ groups others : List Group, Writes groups r → others.Perm groups →
        (∀ option, valuesIn others option = valuesIn groups option) → Writes others r) ∧
      (∀ groups, Writes groups r → parse (wordsOf groups) = .ok r.line) ∧
      (r.line.overrides.mode ≠ .unset ↔ r.command = some .check ∨ r.command = some .fix) ∧
      ∀ m, r.line.overrides.mode = .given m ↔ r.command.map Name.text = some m.name := by
  refine ⟨exists_writes h, fun _ _ hwrites hperm hvalues => hwrites.perm hperm hvalues,
    fun groups hwrites => ?_, r.mode_ne_unset_iff, r.mode_eq_given_iff⟩
  rw [parse_wordsOf, hwrites.foldlM_commandAfter]
  exact hwrites.line_rawOf h

/-- Values that look like a command or a short option, and an option that is repeated. -/
def fixRow : List Group :=
  [.value .colour "--color" "always" rfl (by decide), .value .config "-c" "list" rfl (by decide),
    .value .ignoreFile "--ignore-file" "-h" rfl (by decide), .command .fix,
    .flag .noModelComponents "--no-model-components" rfl,
    .value .failOnCoverageBelow "--fail-on-coverage-below" "85" rfl (by decide),
    .value .ignoreFile "--ignore-file" "fix" rfl (by decide),
    .value .colour "--color" "never" rfl (by decide)]

def fixRequest : Request where
  command := some .fix
  config := some "list"
  profile := none
  overrides := { Settings.none with
    ignoreFiles := .given ["-h", "fix"]
    modelComponents := .given false
    failOnCoverageBelow := .given (Number.ofText "85")
    colour := .given .never }

theorem fixRequest_reads_back : fixRequest.Expressible ∧ Writes fixRow fixRequest ∧
    parse ["--color", "always", "-c", "list", "--ignore-file", "-h", "fix", "--no-model-components",
      "--fail-on-coverage-below", "85", "--ignore-file", "fix", "--color", "never"] =
        .ok fixRequest.line := by
  have hwrites : Writes fixRow fixRequest :=
    { command := rfl
      noHelp := by decide
      config := rfl
      profile := rfl
      values := fun option _ _ hgives => by cases option <;> cases hgives <;> rfl
      flags := fun option _ _ hgives => by cases option <;> cases hgives <;> rfl }
  have hvalues : ∀ option ∈ ValueOption.all, ∀ text ∈ valuesIn fixRow option, IsValue text := by
    decide
  have hthreshold : Number.zero.le (Number.ofText "85") = true ∧
      (Number.ofText "85").le (Number.ofNat 100) = true := by decide +kernel
  have hexpressible : fixRequest.Expressible :=
    { command := nofun
      config := by
        rintro _ ⟨⟩
        decide
      profile := nofun
      values := fun option l read hgives =>
        ⟨valuesIn fixRow option, hvalues option option.mem_all, hwrites.values option l read hgives⟩
      flags := fun option l value hgives => by
        rw [hwrites.flags option l value hgives]
        split
        · exact Or.inr rfl
        · exact Or.inl rfl
      threshold := fun n hn => Setting.given.inj hn ▸ hthreshold }
  obtain ⟨-, -, hread, -⟩ := parse_reads_back hexpressible
  exact ⟨hexpressible, hwrites, hread fixRow hwrites⟩

end Command
end ApiSync
