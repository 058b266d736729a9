/-! Paths.

A path is a text: names with slashes between them, from the root if it starts
with a slash. Empty names, and dots but for a leading one, name nothing. -/
namespace LoxFrontEnd.Files.Path

/-- The parts of a path between its slashes, empty ones included. -/
def split : List Char → List (List Char)
  | [] => [[]]
  | c :: rest =>
    if c = '/' then [] :: split rest
    else match split rest with
      | [] => [[c]]
      | part :: parts => (c :: part) :: parts

def names (path : String) : List String := (split path.toList).map String.ofList

def isAbsolute (path : String) : Bool := path.toList.head? == some '/'

/-- The path of a name inside another path. -/
def join (base name : String) : String :=
  if base.isEmpty ∨ base.toList.getLast? = some '/' then base ++ name else base ++ "/" ++ name

/-! ### The path above -/

/-- Cuts the root or a leading dot off a path. -/
def splitHead : List Char → List Char × List Char
  | '/' :: body => (['/'], body)
  | ['.'] => (['.'], [])
  | '.' :: '/' :: body => (['.'], '/' :: body)
  | body => ([], body)

/-- Drops from the end of a path what names nothing. The path is given back to front. -/
def dropBlank : List Char → List Char
  | '/' :: rest => dropBlank rest
  | ['.'] => []
  | '.' :: '/' :: rest => dropBlank rest
  | rest => rest

theorem length_dropBlank_le (back : List Char) : (dropBlank back).length ≤ back.length := by
  fun_induction dropBlank back <;> grind

/-- The path without its last name. A root has no path above it. -/
def parent? (path : List Char) : Option (List Char) :=
  let (head, body) := splitHead path
  match dropBlank body.reverse with
  | [] => if head = ['.'] then some [] else none
  | _ :: back => some (head ++ (dropBlank (back.dropWhile (· != '/'))).reverse)

theorem length_splitHead (path : List Char) :
    (splitHead path).1.length + (splitHead path).2.length = path.length := by
  unfold splitHead
  split <;> simp +arith

theorem length_parent?_lt {path above : List Char} (h : parent? path = some above) :
    above.length < path.length := by
  have hsplit := length_splitHead path
  simp only [parent?] at h
  split at h
  · split at h
    · next hh =>
      rw [hh] at hsplit
      obtain rfl := Option.some.inj h
      simp only [List.length_nil, List.length_cons] at hsplit ⊢
      omega
    · simp at h
  · next c back hback =>
    obtain rfl := Option.some.inj h
    have hbody := length_dropBlank_le (splitHead path).2.reverse
    have hcut := length_dropBlank_le (back.dropWhile (· != '/'))
    have hdrop := (back.dropWhile_sublist (· != '/')).length_le
    rw [hback] at hbody
    simp only [List.length_append, List.length_reverse, List.length_cons] at hbody ⊢
    omega

/-- A path and the paths above it, the nearest first, down to the root or to the last name of
a relative path. -/
def ancestors (path : List Char) : List (List Char) :=
  if path.isEmpty then []
  else path :: match _h : parent? path with
    | some above => ancestors above
    | none => []
termination_by path.length
decreasing_by exact length_parent?_lt _h

end LoxFrontEnd.Files.Path
