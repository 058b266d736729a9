import LoxFrontEnd.Log.Event

/-! Which events are logged.

A filter is a list of rules. A rule asks for a level of detail for all targets
that start with a given text; the longest such text decides, and an event that no
rule is for is not logged. -/
namespace LoxFrontEnd.Log

structure Rule where
  /-- The text with which the targets start; the empty one stands for all of them. -/
  target : String
  /-- How much detail is asked for, from nothing to everything. -/
  detail : Nat
deriving DecidableEq, Repr

namespace Rule

def concerns (r : Rule) (e : Event) : Bool := r.target.toList.isPrefixOf e.target.toList

/-- The words and digits for the amounts of detail. -/
def details : List (String × Nat) :=
  [("off", 0), ("error", 1), ("warn", 2), ("info", 3), ("debug", 4), ("trace", 5),
    ("0", 0), ("1", 1), ("2", 2), ("3", 3), ("4", 4), ("5", 5)]

def ofWord? (word : List Char) : Option Nat :=
  details.lookup (String.ofList (word.map Char.toLower))

def isTargetChar (c : Char) : Bool := c.isAlphanum || c == '_' || c == ':' || c == '-'

/-- A rule is an amount of detail for everything, a target of which everything is asked, or
a target, an equals sign and an amount. -/
def parse? (text : List Char) : Option Rule :=
  match ofWord? text with
  | some detail => some ⟨"", detail⟩
  | none =>
    let target := text.takeWhile isTargetChar
    if target.isEmpty then none
    else match text.dropWhile isTargetChar with
      | [] | ['='] => some ⟨String.ofList target, Level.trace.detail⟩
      | '=' :: word => (ofWord? word).map fun detail => ⟨String.ofList target, detail⟩
      | _ => none

end Rule

structure Filter where
  rules : List Rule
deriving DecidableEq, Repr

namespace Filter

def ofLevel (l : Level) : Filter := ⟨[⟨"", l.detail⟩]⟩

/-- The pieces of a text between its commas. -/
def pieces : List Char → List (List Char)
  | [] => [[]]
  | c :: rest =>
    if c = ',' then [] :: pieces rest
    else match pieces rest with
      | [] => [[c]]
      | piece :: others => (c :: piece) :: others

/-- A filter is written as rules with commas between them; without any rule it asks for
errors. -/
def parse? (text : String) : Option Filter :=
  match ((pieces text.toList).filter (!·.isEmpty)).mapM Rule.parse? with
  | some [] => some (ofLevel .error)
  | some rules => some ⟨rules⟩
  | none => none

/-- The rule with the longest target of two; of two equally long ones the later. -/
def closer (best : Option Rule) (r : Rule) : Option Rule :=
  match best with
  | none => some r
  | some b => if b.target.length ≤ r.target.length then some r else some b

/-- The rule that decides on an event. -/
def ruleFor? (f : Filter) (e : Event) : Option Rule :=
  (f.rules.filter (·.concerns e)).foldl closer none

def allows (f : Filter) (e : Event) : Bool :=
  match f.ruleFor? e with
  | some r => e.level.detail ≤ r.detail
  | none => false

end Filter

end LoxFrontEnd.Log
