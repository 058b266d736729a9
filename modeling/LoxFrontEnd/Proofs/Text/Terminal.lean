import LoxFrontEnd.Text.Style

/-! What a terminal shows.

A terminal shows the characters that it is sent, each in the look that is selected when
it comes. A control sequence is not shown: it selects the look of what comes after it. Here
a terminal knows no control sequences but these, and is lost behind any other. A painted
text is shown without its control sequences, in the look of its style, and leaves a look
behind that is cleared of this style (`run_paint`). -/
namespace LoxFrontEnd.Text

/-- How characters look. -/
structure Look where
  /-- The parameter of the colour, if it is not the default one. -/
  colour : Option Nat
  bold : Bool
  dimmed : Bool
  italic : Bool
deriving DecidableEq, Repr

namespace Look

/-- The default look. -/
def plain : Look := ⟨none, false, false, false⟩

/-- The look that a parameter selects, if it is about looks. -/
def select? (l : Look) (parameter : Nat) : Option Look :=
  if parameter = 0 then some plain
  else if parameter = 1 then some { l with bold := true }
  else if parameter = 2 then some { l with dimmed := true }
  else if parameter = 3 then some { l with italic := true }
  else if parameter = 39 then some { l with colour := none }
  else if 30 ≤ parameter ∧ parameter ≤ 37 ∨ 90 ≤ parameter ∧ parameter ≤ 97 then
    some { l with colour := some parameter }
  else none

/-- The look of a text in a style, inside a text of the given look. -/
def apply (l : Look) : Style → Look
  | .colour c => { l with colour := some c.code }
  | .bold => { l with bold := true }
  | .dimmed => { l with dimmed := true }
  | .italic => { l with italic := true }

/-- The look behind a text in a style. -/
def clear (l : Look) : Style → Look
  | .colour _ => { l with colour := none }
  | .bold | .dimmed | .italic => plain

end Look

/-- Where in a control sequence a terminal stands. -/
inductive Stage where
  /-- Outside of all of them. -/
  | text
  | escape
  /-- Behind the digits of the given number. -/
  | parameter (n : Nat)
  /-- Behind a sequence that selects no look. Of what follows nothing is shown. -/
  | lost
deriving DecidableEq, Repr

structure Terminal where
  look : Look
  stage : Stage
deriving DecidableEq, Repr

namespace Terminal

/-- A terminal that is in no control sequence. -/
def ready (l : Look) : Terminal := ⟨l, .text⟩

/-- One more character: how the terminal stands then, and what it shows. -/
def next (t : Terminal) (c : Char) : Terminal × List (Char × Look) :=
  match t.stage with
  | .text =>
    if c = '\x1b' then ({ t with stage := .escape }, []) else (t, [(c, t.look)])
  | .escape =>
    if c = '[' then ({ t with stage := .parameter 0 }, []) else ({ t with stage := .lost }, [])
  | .parameter n =>
    if c.isDigit then ({ t with stage := .parameter (10 * n + (c.toNat - '0'.toNat)) }, [])
    else match if c = 'm' then t.look.select? n else none with
      | some look => (⟨look, .text⟩, [])
      | none => ({ t with stage := .lost }, [])
  | .lost => (t, [])

def run (t : Terminal) : List Char → Terminal × List (Char × Look)
  | [] => (t, [])
  | c :: rest =>
    let (middle, shown) := t.next c
    let (last, others) := middle.run rest
    (last, shown ++ others)

theorem run_append (t : Terminal) (a b : List Char) :
    t.run (a ++ b) =
      let (middle, shown) := t.run a
      let (last, others) := middle.run b
      (last, shown ++ others) := by
  induction a generalizing t with
  | nil => rfl
  | cons c a ih => simp only [List.cons_append, run, ih, List.append_assoc]

/-! ### Painted texts -/

section
variable {l m : Look}

/-- A text without control sequences is shown as it is. -/
theorem run_text {cs : List Char} (h : '\x1b' ∉ cs) :
    (ready l).run cs = (ready l, cs.map fun c => (c, l)) := by
  induction cs with
  | nil => rfl
  | cons c cs ih =>
    rw [List.mem_cons, not_or] at h
    obtain ⟨hc, hcs⟩ := h
    have hnext : (ready l).next c = (ready l, [(c, l)]) := if_neg (Ne.symm hc)
    simp only [run, hnext, ih hcs, List.singleton_append, List.map_cons]

theorem run_opening (s : Style) : (ready l).run s.opening.toList = (ready (l.apply s), []) := by
  cases s with
  | colour c => cases c <;> rfl
  | _ => rfl

theorem run_closing (s : Style) : (ready l).run s.closing.toList = (ready (l.clear s), []) := by
  cases s with
  | colour c =>
    show (ready l).run (control 39).toList = (ready { l with colour := none }, [])
    rfl
  | _ => rfl

/-- A style around a text changes the look in which it is shown, and nothing else. -/
theorem run_paint {s : Style} {painted : String} {shown : List (Char × Look)}
    (h : (ready (l.apply s)).run painted.toList = (ready m, shown)) :
    (ready l).run (s.paint painted).toList = (ready (m.clear s), shown) := by
  rw [Style.paint, String.toList_append, String.toList_append, run_append, run_append, run_opening]
  simp only [h, run_closing, List.nil_append, List.append_nil]

/-- Styles one around the other, the innermost first. -/
theorem run_foldl_paint {styles : List Style} {painted : String} {shown : List (Char × Look)}
    (h : (ready (styles.foldr (fun s look => look.apply s) l)).run painted.toList =
      (ready m, shown)) :
    (ready l).run (styles.foldl (fun text s => s.paint text) painted).toList =
      (ready (styles.foldl Look.clear m), shown) := by
  induction styles generalizing painted m with
  | nil => exact h
  | cons s styles ih => exact ih (run_paint h)

end

end Terminal

end LoxFrontEnd.Text
