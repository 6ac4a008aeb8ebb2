import ApiSync.Diff.Script
import ApiSync.Yaml.Dump
/-!
Unified diffs: hunks of edits with three lines of context around them.

Of neighbouring runs of edits, deletions come before insertions.  A hunk ends where more
than six lines are kept.
-/

namespace ApiSync
namespace Diff

inductive Kind where
  | keep
  | delete
  | insert
deriving DecidableEq, Repr

/-- Neighbouring edits of one kind. -/
structure Run where
  kind : Kind
  lines : List String
deriving DecidableEq, Repr

def Edit.kind : Edit → Kind
  | .keep _ => .keep
  | .delete _ => .delete
  | .insert _ => .insert

def Edit.line : Edit → String
  | .keep l | .delete l | .insert l => l

/-- Groups the edits by kind. -/
def runsOf : List Edit → List Run
  | [] => []
  | e :: es =>
    match runsOf es with
    | [] => [⟨e.kind, [e.line]⟩]
    | r :: rs =>
      if r.kind = e.kind then ⟨r.kind, e.line :: r.lines⟩ :: rs
      else ⟨e.kind, [e.line]⟩ :: r :: rs

/-- Adds a run behind those in `done`, last one first; a deletion goes in front of an
insertion right before it. -/
def addRun (done : List Run) (r : Run) : List Run :=
  match done with
  | last :: rest =>
    if r.kind = .delete && last.kind = .insert then last :: r :: rest else r :: last :: rest
  | [] => [r]

def deletionsFirst (runs : List Run) : List Run := (runs.foldl addRun []).reverse

/-! ## Hunks -/

/-- Lines around edits. -/
def contextSize : Nat := 3

/-- A part of a diff: the numbers of its first old and new line, and its edits. -/
structure Hunk where
  oldStart : Nat
  newStart : Nat
  edits : List Edit
deriving DecidableEq, Repr

namespace Hunk

def oldCount (h : Hunk) : Nat := h.edits.countP (·.kind ≠ .insert)

def newCount (h : Hunk) : Nat := h.edits.countP (·.kind ≠ .delete)

def add (h : Hunk) (edits : List Edit) : Hunk := { h with edits := h.edits ++ edits }

end Hunk

def Run.edits (r : Run) : List Edit :=
  match r.kind with
  | .keep => r.lines.map .keep
  | .delete => r.lines.map .delete
  | .insert => r.lines.map .insert

def Run.oldCount (r : Run) : Nat := if r.kind = .insert then 0 else r.lines.length

def Run.newCount (r : Run) : Nat := if r.kind = .delete then 0 else r.lines.length

def lastLines (lines : List String) : List String := lines.drop (lines.length - contextSize)

/-- The hunks of runs that start at the given lines.  `before` is the kept run in front,
and `hunk` the hunk that is still open. -/
def hunksFrom (oldLine newLine : Nat) (before : List String) (hunk : Option Hunk) :
    List Run → List Hunk
  | [] => hunk.toList
  | r :: rest =>
    let oldNext := oldLine + r.oldCount
    let newNext := newLine + r.newCount
    match r.kind, hunk with
    | .keep, none => hunksFrom oldNext newNext r.lines none rest
    | .keep, some h =>
      if r.lines.length ≤ 2 * contextSize && rest ≠ [] then
        hunksFrom oldNext newNext r.lines (some (h.add r.edits)) rest
      else
        h.add ((r.lines.take contextSize).map .keep) ::
          hunksFrom oldNext newNext r.lines none rest
    | _, none =>
      let context := lastLines before
      let h : Hunk := ⟨oldLine - context.length, newLine - context.length, context.map .keep⟩
      hunksFrom oldNext newNext [] (some (h.add r.edits)) rest
    | _, some h => hunksFrom oldNext newNext [] (some (h.add r.edits)) rest

def hunks (before after : List String) : List Hunk :=
  hunksFrom 1 1 [] none (deletionsFirst (runsOf (script before after)))

/-! ## Text -/

def Edit.text : Edit → String
  | .keep l => " " ++ l
  | .delete l => "-" ++ l
  | .insert l => "+" ++ l

/-- A range of lines: its start and length, of which a length of one is left out. -/
def rangeText (start length : Nat) : String :=
  if length = 1 then toString start
  else if length = 0 then "0,0"
  else s!"{start},{length}"

def Hunk.lines (h : Hunk) : List String :=
  let old := rangeText h.oldStart h.oldCount
  let new := rangeText h.newStart h.newCount
  s!"@@ -{old} +{new} @@" :: h.edits.map Edit.text

/-- Lines with breaks inside are several lines. -/
def splitLines (lines : List String) : List String := lines.flatMap (Text.splitText '\n')

/-- The unified diff of two lists of lines; nothing if they are the same. -/
def unified (before after : List String) (name : String) : List String :=
  match hunks (splitLines before) (splitLines after) with
  | [] => []
  | hs => s!"--- a/{name}" :: s!"+++ b/{name}" :: hs.flatMap Hunk.lines

/-- The unified diff of the YAML lines of two values, either of which may be absent. -/
def values (before after : Option Value) (name : String) : List String :=
  unified (Yaml.lines before) (Yaml.lines after) name

end Diff
end ApiSync
