import Mathlib.Logic.ExistsUnique
import ApiSync.Command.Line
import ApiSync.Proofs.Failing
import ApiSync.Proofs.Fields
/-!
# Command lines as groups of words

A command line is a row of groups: a command, an option with its value, or an option that stands
alone.  The words of a line that is accepted come from one row of groups only.  The options of a row
are collected as they come; the one thing that a group has to do with the groups before it is that
there is room for one command.
-/

namespace ApiSync
namespace Command

/-- Words that belong together.  The value of an option may look like a command or like a short
option, but not like a long one. -/
inductive Group where
  | command (name : Name)
  | value (option : ValueOption) (word text : String)
      (hword : Fields.get? valueOptions word = some option)
      (htext : Text.hasPrefix text "--" = false)
  | flag (option : FlagOption) (word : String)
      (hword : Fields.get? flagOptions word = some option)

namespace Group

def words : Group → List String
  | .command name => [name.text]
  | .value _ word text _ _ => [word, text]
  | .flag _ word _ => [word]

def command? : Group → Option Name
  | .command name => some name
  | _ => none

def pair? : Group → Option (ValueOption × String)
  | .value option _ text _ _ => some (option, text)
  | _ => none

def flag? : Group → Option FlagOption
  | .flag option _ _ => some option
  | _ => none

end Group

def wordsOf (groups : List Group) : List String := groups.flatMap Group.words

/-- The commands of a row, in their order. -/
def commandsIn (groups : List Group) : List Name := groups.filterMap Group.command?

def pairsIn (groups : List Group) : List (ValueOption × String) := groups.filterMap Group.pair?

/-- The values that a row gives for an option, in their order. -/
def valuesIn (groups : List Group) (option : ValueOption) : List String :=
  ((pairsIn groups).filter (·.1 = option)).map (·.2)

def flagsIn (groups : List Group) : List FlagOption := groups.filterMap Group.flag?

/-! ## The words of a group -/

theorem valueOption?_text (name : Name) : Fields.get? valueOptions name.text = none := by
  cases name <;> rfl

theorem flagOption?_text (name : Name) : Fields.get? flagOptions name.text = none := by
  cases name <;> rfl

/-- No option stands alone and takes a value. -/
theorem valueOption?_of_flagOption? {word : String} {flag : FlagOption}
    (h : Fields.get? flagOptions word = some flag) : Fields.get? valueOptions word = none := by
  have hapart : ∀ e ∈ flagOptions, Fields.get? valueOptions e.1 = none := by decide
  exact hapart _ (Fields.mem_of_get? h)

theorem text_injective {a b : Name} (h : a.text = b.text) : a = b := by
  revert h
  cases a <;> cases b <;> decide

/-- What a look-up of the first word of a group finds. -/
theorem lookup_head (g : Group) : ∃ word rest, g.words = word :: rest ∧
    Fields.get? valueOptions word = g.pair?.map (·.1) ∧
    Fields.get? flagOptions word = g.flag? := by
  cases g with
  | command name => exact ⟨_, _, rfl, valueOption?_text name, flagOption?_text name⟩
  | value option word text hword _ =>
    refine ⟨_, _, rfl, hword, ?_⟩
    cases hflag : Fields.get? flagOptions word with
    | none => rfl
    | some flag =>
      rw [valueOption?_of_flagOption? hflag] at hword
      cases hword
  | flag option word hword => exact ⟨_, _, rfl, valueOption?_of_flagOption? hword, hword⟩

/-- The first word of a row tells the kind of the first group, and with that where it ends. -/
theorem words_append_inj {g g' : Group} {rest rest' : List String}
    (h : g.words ++ rest = g'.words ++ rest') : g = g' ∧ rest = rest' := by
  obtain ⟨word, more, hwords, hvalue, hflag⟩ := lookup_head g
  obtain ⟨word', more', hwords', hvalue', hflag'⟩ := lookup_head g'
  have hsame : word = word' := by
    rw [hwords, hwords'] at h
    exact (List.cons.inj h).1
  rw [← hsame, hvalue] at hvalue'
  rw [← hsame, hflag] at hflag'
  cases g with
  | command name =>
    cases g' with
    | command name' =>
      obtain ⟨hname, hrest⟩ := List.cons.inj (show name.text :: rest = name'.text :: rest' from h)
      exact ⟨congrArg Group.command (text_injective hname), hrest⟩
    | value => cases hvalue'
    | flag => cases hflag'
  | value option word text hword htext =>
    cases g' with
    | command => cases hvalue'
    | value option' word' text' hword' htext' =>
      have hcons : word :: text :: rest = word' :: text' :: rest' := h
      cases hvalue'
      cases hcons
      exact ⟨rfl, rfl⟩
    | flag => cases hflag'
  | flag option word hword =>
    cases g' with
    | command => cases hflag'
    | value => cases hvalue'
    | flag option' word' hword' =>
      have hcons : word :: rest = word' :: rest' := h
      cases hflag'
      cases hcons
      exact ⟨rfl, rfl⟩

/-- There is no group without words. -/
theorem length_words_pos (g : Group) : 1 ≤ g.words.length := by
  obtain ⟨word, rest, hwords, -⟩ := lookup_head g
  rw [hwords, List.length_cons]
  exact Nat.succ_le_succ (Nat.zero_le _)

theorem wordsOf_cons (g : Group) (groups : List Group) :
    wordsOf (g :: groups) = g.words ++ wordsOf groups := List.flatMap_cons

theorem wordsOf_append (before after : List Group) :
    wordsOf (before ++ after) = wordsOf before ++ wordsOf after := List.flatMap_append

theorem wordsOf_injective {groups groups' : List Group} (h : wordsOf groups = wordsOf groups') :
    groups = groups' := by
  have hnonempty (g : Group) (rest : List String) : g.words ++ rest ≠ [] :=
    List.append_ne_nil_of_left_ne_nil (List.ne_nil_of_length_pos (length_words_pos g)) rest
  induction groups generalizing groups' with
  | nil =>
    cases groups' with
    | nil => rfl
    | cons g' rest' => exact absurd h.symm (hnonempty g' (wordsOf rest'))
  | cons g rest ih =>
    cases groups' with
    | nil => exact absurd h (hnonempty g (wordsOf rest))
    | cons g' rest' =>
      obtain ⟨hfirst, hrest⟩ := words_append_inj h
      rw [hfirst, ih hrest]

theorem length_le_length_wordsOf (groups : List Group) :
    groups.length ≤ (wordsOf groups).length := by
  induction groups with
  | nil => exact Nat.le_refl 0
  | cons g rest ih =>
    have hwords := length_words_pos g
    rw [wordsOf_cons, List.length_append, List.length_cons]
    omega

/-! ## Reading group by group -/

/-- What has been read after one more group. -/
def Raw.add (r : Raw) : Group → Except UsageError Raw
  | .command name =>
    if r.command.isSome then throw (.unexpectedArgument name.text)
    else pure { r with command := some name }
  | .value option _ text _ _ => pure { r with values := r.values ++ [(option, text)] }
  | .flag option _ _ => pure (r.addFlag option)

theorem addCommand_text (r : Raw) (name : Name) :
    addCommand r name.text = r.add (.command name) := by
  have hplain : Text.hasPrefix name.text "-" = false := by cases name <;> decide
  have hfound : Name.all.find? (·.text = name.text) = some name := by cases name <;> rfl
  rw [addCommand, hplain, hfound, Raw.add, if_neg Bool.false_ne_true]

theorem splitFrom_words (fuel : Nat) (r : Raw) (g : Group) (rest : List String) :
    splitFrom (fuel + 1) r (g.words ++ rest) = r.add g >>= fun next => splitFrom fuel next rest := by
  cases g with
  | command name =>
    show splitFrom (fuel + 1) r (name.text :: rest) = _
    rw [splitFrom, valueOption?_text, flagOption?_text]
    dsimp only
    rw [addCommand_text]
  | value option word value hword hvalue =>
    show splitFrom (fuel + 1) r (word :: value :: rest) = _
    rw [splitFrom, hword]
    dsimp only
    rw [optionValue, hvalue, if_neg Bool.false_ne_true]
    rfl
  | flag option word hword =>
    show splitFrom (fuel + 1) r (word :: rest) = _
    rw [splitFrom, valueOption?_of_flagOption? hword, hword]
    rfl

theorem splitFrom_wordsOf {fuel : Nat} {groups : List Group} (h : groups.length ≤ fuel) (r : Raw) :
    splitFrom fuel r (wordsOf groups) = groups.foldlM Raw.add r := by
  induction groups generalizing fuel r with
  | nil => cases fuel <;> rfl
  | cons g rest ih =>
    cases fuel with
    | zero => exact absurd h (Nat.not_succ_le_zero _)
    | succ fuel =>
      rw [wordsOf_cons, splitFrom_words, List.foldlM_cons]
      congr 1
      funext next
      exact ih (Nat.le_of_succ_le_succ h) next

theorem split_wordsOf (groups : List Group) :
    split (wordsOf groups) = groups.foldlM Raw.add Raw.start :=
  splitFrom_wordsOf (length_le_length_wordsOf groups) Raw.start

/-- A step that succeeds has read a group. -/
theorem exists_group_of_splitFrom {fuel : Nat} {r result : Raw} {word : String}
    {rest : List String} (h : splitFrom (fuel + 1) r (word :: rest) = .ok result) :
    ∃ (g : Group) (others : List String) (next : Raw), g.words ++ others = word :: rest ∧
      splitFrom fuel next others = .ok result := by
  rw [splitFrom] at h
  split at h
  · next option hvalue =>
    obtain ⟨⟨value, others⟩, htaken, hrest⟩ := bind_eq_ok.mp h
    cases rest with
    | nil => cases htaken
    | cons v vs =>
      rw [optionValue] at htaken
      split at htaken
      · cases htaken
      · next hlong =>
        cases htaken
        exact ⟨.value option word value hvalue (Bool.not_eq_true _ ▸ hlong), _, _, rfl, hrest⟩
  · next flag _ hflag => exact ⟨.flag flag word hflag, rest, _, rfl, h⟩
  · obtain ⟨next, hadded, hrest⟩ := bind_eq_ok.mp h
    rw [addCommand] at hadded
    split at hadded
    · cases hadded
    · split at hadded
      · cases hadded
      · split at hadded
        · next name hfound =>
          have htext : name.text = word := by simpa using List.find?_some hfound
          exact ⟨.command name, rest, next, by rw [← htext]; rfl, hrest⟩
        · cases hadded

theorem exists_groups_of_splitFrom {fuel : Nat} {r result : Raw} {words : List String}
    (hfuel : words.length ≤ fuel) (h : splitFrom fuel r words = .ok result) :
    ∃ groups, wordsOf groups = words := by
  induction fuel generalizing r words with
  | zero => exact ⟨[], (List.length_eq_zero_iff.mp (Nat.le_zero.mp hfuel)).symm⟩
  | succ fuel ih =>
    cases words with
    | nil => exact ⟨[], rfl⟩
    | cons word rest =>
      obtain ⟨g, others, next, hwords, hrest⟩ := exists_group_of_splitFrom h
      have hlength : others.length ≤ fuel := by
        have hcount := congrArg List.length hwords
        have hsome := length_words_pos g
        simp only [List.length_append, List.length_cons] at hcount hfuel
        omega
      obtain ⟨groups, hgroups⟩ := ih hlength hrest
      exact ⟨g :: groups, by rw [wordsOf_cons, hgroups, hwords]⟩

/-- The words of a line that is accepted are those of one row of groups. -/
theorem existsUnique_groups {arguments : List String} {line : Line}
    (h : parse arguments = .ok line) : ∃! groups, wordsOf groups = arguments := by
  obtain ⟨r, hsplit, -⟩ := bind_eq_ok.mp h
  obtain ⟨groups, hgroups⟩ := exists_groups_of_splitFrom (Nat.le_refl _) hsplit
  exact ⟨groups, hgroups, fun others hothers => wordsOf_injective (hothers.trans hgroups.symm)⟩

/-! ## The command of a row -/

/-- The command after one more group.  Asking for help is a command as well, and the one that may
come on top of another. -/
def commandAfter (command : Option Name) : Group → Except UsageError (Option Name)
  | .command name =>
    if command.isSome then throw (.unexpectedArgument name.text) else pure (some name)
  | .flag .help _ _ => pure (some .help)
  | _ => pure command

/-- The options of a row are collected whatever the commands, and the command is found whatever the
options. -/
theorem foldlM_add (groups : List Group) (r : Raw) :
    groups.foldlM Raw.add r = groups.foldlM commandAfter r.command >>= fun command =>
      pure ⟨command, r.values ++ pairsIn groups,
        r.flags ++ (flagsIn groups).filter (· ≠ .help)⟩ := by
  induction groups generalizing r with
  | nil =>
    show Except.ok r = Except.ok _
    rw [pairsIn, flagsIn, List.filterMap_nil, List.filterMap_nil, List.filter_nil, List.append_nil,
      List.append_nil]
  | cons g rest ih =>
    rw [List.foldlM_cons, List.foldlM_cons]
    cases g with
    | command name =>
      rw [Raw.add, commandAfter]
      split
      · rfl
      · exact ih _
    | value option word value hword hvalue =>
      refine (ih _).trans ?_
      simp only [pairsIn, flagsIn, List.filterMap_cons, Group.pair?, Group.flag?, commandAfter,
        List.append_assoc, List.singleton_append, pure_bind]
    | flag option word hword =>
      refine (ih _).trans ?_
      by_cases hhelp : option = .help
      · subst hhelp
        rfl
      · rw [Raw.addFlag, if_neg hhelp]
        have hkept : commandAfter r.command (.flag option word hword) = pure r.command := by
          cases option <;> first | exact absurd rfl hhelp | rfl
        rw [hkept]
        simp only [pairsIn, flagsIn, List.filterMap_cons, Group.pair?, Group.flag?, pure_bind,
          List.filter_cons, hhelp, ne_eq, not_false_eq_true, decide_true, if_true,
          List.append_assoc, List.singleton_append]

/-- A line is understood by its command, its values and the options that stand alone. -/
theorem parse_wordsOf (groups : List Group) :
    parse (wordsOf groups) = groups.foldlM commandAfter none >>= fun command =>
      Raw.line ⟨command, pairsIn groups, (flagsIn groups).filter (· ≠ .help)⟩ := by
  rw [parse, split_wordsOf, foldlM_add, bind_assoc]
  rfl

/-- Without a command only the asking for help counts. -/
theorem foldlM_commandAfter_of_none {groups : List Group} (h : commandsIn groups = [])
    (command : Option Name) :
    groups.foldlM commandAfter command =
      .ok (if .help ∈ flagsIn groups then some .help else command) := by
  induction groups generalizing command with
  | nil => rfl
  | cons g rest ih =>
    rw [List.foldlM_cons]
    cases g with
    | command name => cases h
    | value option word value hword hvalue => exact ih h command
    | flag option word hword =>
      by_cases hhelp : option = .help
      · subst hhelp
        have hmem : FlagOption.help ∈ flagsIn (.flag .help word hword :: rest) := List.mem_cons_self
        refine (ih h (some .help)).trans ?_
        rw [if_pos hmem, ite_self]
      · have hkept : commandAfter command (.flag option word hword) = pure command := by
          cases option <;> first | exact absurd rfl hhelp | rfl
        have hmem : FlagOption.help ∈ flagsIn (.flag option word hword :: rest) ↔
            FlagOption.help ∈ flagsIn rest := by
          show FlagOption.help ∈ option :: flagsIn rest ↔ _
          rw [List.mem_cons, or_iff_right (Ne.symm hhelp)]
        rw [hkept]
        refine (ih h command).trans ?_
        simp only [hmem]

end Command
end ApiSync
