import ApiSync.Proofs.Command.Groups
/-!
# Asking for help

Help may be asked for at any place between the groups of an accepted line, but it counts as a
command: the line is accepted, with the options that it had, exactly if no command comes behind.
-/

namespace ApiSync
namespace Command

/-- The line with help in place of its command. -/
def Line.asHelp (line : Line) : Line :=
  { line with command := .help, overrides := { line.overrides with mode := .unset } }

/-- What the options say does not depend on the command. -/
theorem line_of_command (command command' : Option Name) (values : List (ValueOption × String))
    (flags : List FlagOption) :
    Raw.line ⟨command', values, flags⟩ = (Raw.line ⟨command, values, flags⟩).map fun line =>
      { line with
        command := command'.getD .check
        overrides := { line.overrides with mode := modeOf command' } } := by
  have hvalue : ∀ option,
      Raw.value? ⟨command', values, flags⟩ option = Raw.value? ⟨command, values, flags⟩ option :=
    fun _ => rfl
  rw [Raw.line, Raw.line, hvalue, hvalue, hvalue]
  cases named (Raw.value? ⟨command, values, flags⟩ .coverageFormat) Config.formatNamed? .badFormat
  · rfl
  cases named (Raw.value? ⟨command, values, flags⟩ .colour) Config.colourNamed? .badColor
  · rfl
  cases named (Raw.value? ⟨command, values, flags⟩ .failOnCoverageBelow) threshold? .badThreshold
  · rfl
  rfl

/-- Behind a request for help there is room for options only. -/
theorem foldlM_commandAfter_of_help (groups : List Group) :
    groups.foldlM commandAfter (some .help) = match (commandsIn groups).head? with
      | none => .ok (some .help)
      | some name => .error (.unexpectedArgument name.text) := by
  induction groups with
  | nil => rfl
  | cons g rest ih =>
    rw [List.foldlM_cons]
    cases g with
    | command name => rfl
    | value option word text hword htext => exact ih
    | flag option word hword =>
      have hkept : commandAfter (some .help) (.flag option word hword) = pure (some .help) := by
        cases option <;> rfl
      rw [hkept]
      exact ih

section Inserting

variable {word : String} {line : Line}

/-- The line with help asked for in between, as far as its commands. -/
theorem foldlM_commandAfter_insert {before after : List Group} {command : Option Name}
    (h : (before ++ after).foldlM commandAfter none = .ok command)
    (hword : Fields.get? flagOptions word = some .help) :
    (before ++ .flag .help word hword :: after).foldlM commandAfter none =
      after.foldlM commandAfter (some .help) := by
  rw [List.foldlM_append] at h ⊢
  obtain ⟨first, hbefore, -⟩ := bind_eq_ok.mp h
  rw [hbefore]
  rfl

/-- Help takes nothing from the options around it. -/
theorem options_insert (before after : List Group)
    (hword : Fields.get? flagOptions word = some .help) :
    pairsIn (before ++ .flag .help word hword :: after) = pairsIn (before ++ after) ∧
      (flagsIn (before ++ .flag .help word hword :: after)).filter (· ≠ .help) =
        (flagsIn (before ++ after)).filter (· ≠ .help) := by
  constructor
  · rw [pairsIn, pairsIn, List.filterMap_append, List.filterMap_append]
    rfl
  · rw [flagsIn, flagsIn, List.filterMap_append, List.filterMap_append, List.filter_append,
      List.filter_append]
    rfl

theorem parse_insert {before after : List Group} (h : parse (wordsOf (before ++ after)) = .ok line)
    (hword : Fields.get? flagOptions word = some .help) :
    parse (wordsOf before ++ word :: wordsOf after) = match (commandsIn after).head? with
      | none => .ok line.asHelp
      | some name => .error (.unexpectedArgument name.text) := by
  rw [parse_wordsOf] at h
  obtain ⟨command, hcommand, hline⟩ := bind_eq_ok.mp h
  have hwords : wordsOf before ++ word :: wordsOf after =
      wordsOf (before ++ .flag .help word hword :: after) :=
    (wordsOf_append before (.flag .help word hword :: after)).symm
  obtain ⟨hpairs, hflags⟩ := options_insert before after hword
  rw [hwords, parse_wordsOf, foldlM_commandAfter_insert hcommand hword,
    foldlM_commandAfter_of_help, hpairs, hflags]
  cases (commandsIn after).head? with
  | some name => rfl
  | none =>
    show Raw.line ⟨some .help, _, _⟩ = _
    rw [line_of_command command, hline]
    rfl

end Inserting

/-- An accepted line falls into groups in one way.  With help asked for between two of them it is
accepted, with the options that it had, exactly if no command stands behind; otherwise the first
one there is refused. -/
theorem parse_with_help {arguments : List String} {line : Line} (h : parse arguments = .ok line) :
    (∃! groups, wordsOf groups = arguments) ∧
      ∀ before after, wordsOf before ++ wordsOf after = arguments → ∀ word ∈ ["-h", "--help"],
        (parse (wordsOf before ++ word :: wordsOf after) = .ok line.asHelp ↔
          commandsIn after = []) ∧
        ∀ name ∈ (commandsIn after).head?,
          parse (wordsOf before ++ word :: wordsOf after) =
            .error (.unexpectedArgument name.text) := by
  refine ⟨existsUnique_groups h, fun before after hwords word hmem => ?_⟩
  have hword : Fields.get? flagOptions word = some .help := by
    have hboth : ∀ word ∈ ["-h", "--help"], Fields.get? flagOptions word = some .help := by decide
    exact hboth word hmem
  rw [← hwords, ← wordsOf_append] at h
  rw [parse_insert h hword]
  cases hcommands : commandsIn after with
  | nil => exact ⟨⟨fun _ => rfl, fun _ => rfl⟩, nofun⟩
  | cons name rest =>
    refine ⟨⟨nofun, nofun⟩, ?_⟩
    rintro _ ⟨⟩
    rfl

theorem help_behind_command :
    parse ["list", "--env", "help"] = .ok ⟨.list, none, some "help", Settings.none⟩ ∧
      parse ["list", "-h", "--env", "help"] = .ok ⟨.help, none, some "help", Settings.none⟩ := by
  have hlist : parse ["list", "--env", "help"] = .ok ⟨.list, none, some "help", Settings.none⟩ :=
    rfl
  obtain ⟨-, hinsert⟩ := parse_with_help hlist
  have hhelp := hinsert [.command .list] [.value .profile "--env" "help" rfl (by decide)] rfl "-h"
    (by decide)
  exact ⟨hlist, hhelp.1.mpr rfl⟩

/-- A command behind the request for help is one too many. -/
theorem help_not_before_command :
    parse ["fix"] = .ok ⟨.fix, none, none, { Settings.none with mode := .given .fix }⟩ ∧
      parse ["--help", "fix"] = .error (.unexpectedArgument "fix") := ⟨rfl, rfl⟩

end Command
end ApiSync
