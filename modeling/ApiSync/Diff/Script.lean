/-!
Edit scripts between two lists of lines, found by breadth-first search.

A path has passed over the beginnings of both lists.  Each round extends the paths by one
deletion or insertion, one path for every diagonal, and lets them slide along equal lines;
the first path that reaches both ends is the script.
-/

namespace ApiSync
namespace Diff

inductive Edit where
  | keep (line : String)
  | delete (line : String)
  | insert (line : String)
deriving DecidableEq, Repr

/-- How far a search has come: the number of old lines passed over, what is left of both
lists, and the edits so far, last one first. -/
structure Path where
  taken : Nat
  before : List String
  after : List String
  edits : List Edit
deriving DecidableEq, Repr

/-- Keeps lines as long as both sides agree. -/
def slide (taken : Nat) (edits : List Edit) : List String → List String → Path
  | a :: as, b :: bs =>
    if a = b then slide (taken + 1) (.keep a :: edits) as bs else ⟨taken, a :: as, b :: bs, edits⟩
  | as, bs => ⟨taken, as, bs, edits⟩

namespace Path

def start (before after : List String) : Path := slide 0 [] before after

/-- The path after one more deletion; none if there is nothing to delete. -/
def delete? (p : Path) : Option Path :=
  match p.before with
  | [] => none
  | a :: as => some (slide (p.taken + 1) (.delete a :: p.edits) as p.after)

/-- The path after one more insertion; none if there is nothing to insert. -/
def insert? (p : Path) : Option Path :=
  match p.after with
  | [] => none
  | b :: bs => some (slide p.taken (.insert b :: p.edits) p.before bs)

def isDone (p : Path) : Bool := p.before = [] && p.after = []

end Path

/-- The best path of each diagonal, and the diagonals that are still worth a look. -/
structure Search where
  frontier : List (Int × Path)
  low : Int
  high : Int

namespace Search

def at? (s : Search) (d : Int) : Option Path := (s.frontier.find? (·.1 = d)).map (·.2)

def clear (s : Search) (d : Int) : Search := { s with frontier := s.frontier.filter (·.1 ≠ d) }

def put (s : Search) (d : Int) (p : Path) : Search :=
  { s with frontier := (d, p) :: s.frontier.filter (·.1 ≠ d) }

/-- Leaves out the diagonals beyond one where a list has come to its end. -/
def narrow (s : Search) (d : Int) (p : Path) : Search :=
  let s := if p.before = [] then { s with high := min s.high (d - 1) } else s
  if p.after = [] then { s with low := max s.low (d + 1) } else s

end Search

/-- What a round of the search comes to. -/
inductive Round where
  | found (p : Path)
  | going (s : Search)

/-- The better of the two ways to a diagonal: a deletion on the path below, or an insertion
on the path above if that one has passed over more old lines. -/
def choose? (below above : Option Path) : Option Path :=
  let canDelete := below.filter (·.before ≠ [])
  let canInsert := above.filter (·.after ≠ [])
  match canDelete, canInsert with
  | none, none => none
  | some p, none => p.delete?
  | none, some q => q.insert?
  | some p, some q => if p.taken + 1 < q.taken then q.insert? else p.delete?

/-- One round over the diagonals from `d` on in steps of two; the fuel bounds their
number. -/
def sweep (length : Nat) : Nat → Int → Search → Round
  | 0, _, s => .going s
  | fuel + 1, d, s =>
    if min s.high length < d then .going s
    else
      let below := s.at? (d - 1)
      let above := s.at? (d + 1)
      let s := s.clear (d - 1)
      match choose? below above with
      | none => sweep length fuel (d + 2) (s.clear d)
      | some p =>
        if p.isDone then .found p
        else sweep length fuel (d + 2) ((s.put d p).narrow d p)

/-- Rounds of growing length; the fuel bounds their number. -/
def search : Nat → Nat → Search → Option Path
  | 0, _, _ => none
  | fuel + 1, length, s =>
    match sweep length (2 * length + 2) (max s.low (-(length : Int))) s with
    | .found p => some p
    | .going s => search fuel (length + 1) s

/-- The edits that lead from one list of lines to another. -/
def script (before after : List String) : List Edit :=
  let start := Path.start before after
  if start.isDone then start.edits.reverse
  else
    let total := before.length + after.length
    let s : Search := ⟨[(0, start)], -(total : Int), total⟩
    match search total 1 s with
    | some p => p.edits.reverse
    | none => before.map .delete ++ after.map .insert

end Diff
end ApiSync
