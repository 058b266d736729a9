import LoxFrontEnd.Proofs.Session.Entries

/-! Sessions that go on.

Nothing of an entry is left when the next one begins. An input that ends where an entry
ends can therefore be cut off from what comes behind it: a session on both shows what it
shows of the first, and then what a session on the second shows, and ends as the second
does (`run_append_of_enters`). Behind the command to leave nothing is read at all. -/
namespace LoxFrontEnd.Session

/-- The entries that lines complete, and the text that waits for its next line after them. Only
the reader is asked, which does not know what entries mean. It fails at a line that is no text. -/
def assemble (buffer : List Char) : List (List UInt8) → Option (List String × List Char)
  | [] => some ([], buffer)
  | line :: rest => match read? buffer line with
    | none => none
    | some (.unfinished longer) => assemble longer rest
    | some (.entry text) =>
      (assemble [] rest).map fun (others, waiting) => (text :: others, waiting)

/-- The input is some whole lines, which complete the given entries and leave nothing waiting. -/
structure Enters (input : List UInt8) (entered : List String) : Prop where
  endsLine : input = [] ∨ input.getLast? = some 10
  assembled : assemble [] (lines input) = some (entered, [])

/-- A session on an input with more behind it is one on the input, and then one on the rest. -/
structure Resumes (setting : Setting) (input more : List UInt8) : Prop where
  result : (run setting (input ++ more)).1 = (run setting more).1
  /-- All that a session on the rest shows after its opening, in the same order. -/
  shown : ∃ rest, (run setting more).2 = opening setting ++ rest ∧
    (run setting (input ++ more)).2 = (run setting input).2 ++ rest
  /-- If prompts are shown, the one for the first line of the rest is shown for the input
  already. -/
  output : setting.prompts = false → ∃ rest,
    Emission.stdout (run setting more).2 = Emission.stdout banner ++ rest ∧
      Emission.stdout (run setting (input ++ more)).2 =
        Emission.stdout (run setting input).2 ++ rest
  errors : ∀ line, Emission.stderr line (run setting (input ++ more)).2 =
    Emission.stderr line (run setting input).2 ++ Emission.stderr line (run setting more).2

/-! ### Reading -/

/-- What a line does to the entry that waits for it. -/
theorem assemble_cons {buffer waiting : List Char} {line : List UInt8} {rest : List (List UInt8)}
    {entered : List String} (h : assemble buffer (line :: rest) = some (entered, waiting)) :
    (∃ longer, read? buffer line = some (.unfinished longer) ∧
      assemble longer rest = some (entered, waiting)) ∨
    ∃ text others, read? buffer line = some (.entry text) ∧ entered = text :: others ∧
      assemble [] rest = some (others, waiting) := by
  rw [assemble] at h
  cases hread : read? buffer line with
  | none => simp [hread] at h
  | some reading =>
    rw [hread] at h
    cases reading with
    | unfinished longer => exact .inl ⟨longer, rfl, h⟩
    | entry text =>
      obtain ⟨⟨others, waiting'⟩, hrest, heq⟩ := Option.map_eq_some_iff.1 h
      obtain ⟨rfl, rfl⟩ := Prod.mk.inj heq
      exact .inr ⟨text, others, rfl, rfl, hrest⟩

/-! ### Leaving -/

/-- Nothing is shown for leaving. -/
theorem answer_of_leaves (setting : Setting) {request : Request} (h : leaves request = true) :
    answer setting request = [] := by
  cases request with
  | command c argument =>
    cases c with
    | exit => rfl
    | _ => cases h
  | _ => cases h

section
variable (setting : Setting)

/-- A session that has ended takes no notice of lines. -/
theorem steps_ended (result : Except Failure Unit) (input : List (List UInt8)) :
    steps setting (.ended result) input = (.ended result, []) := by
  induction input with
  | nil => rfl
  | cons line rest ih => simp [steps, step, ih]

variable {buffer waiting : List Char} {input : List (List UInt8)} {entered : List String}

/-- As long as no entry is the command to leave, a session waits with the text with which its
reader waits. -/
theorem steps_stays (h : assemble buffer input = some (entered, waiting))
    (hstay : ∀ entry ∈ entered, (Command.parse entry).map Prod.fst ≠ some .exit) :
    (steps setting (.reading buffer) input).1 = .reading waiting := by
  induction input generalizing buffer entered with
  | nil =>
    obtain ⟨-, rfl⟩ : [] = entered ∧ buffer = waiting := by simpa [assemble] using h
    rfl
  | cons line rest ih =>
    rcases assemble_cons h with ⟨longer, hread, hrest⟩ | ⟨text, others, hread, rfl, hrest⟩
    · simpa [steps, step_unfinished hread] using ih hrest hstay
    · have htext := hstay text (List.mem_cons_self ..)
      have hothers := ih hrest fun entry hentry => hstay entry (List.mem_cons_of_mem text hentry)
      simpa [steps, step_entry hread htext] using hothers

/-- A session ends with the first entry if that is the command to leave. -/
theorem steps_leaves {entry : String}
    (h : assemble buffer input = some (entry :: entered, waiting))
    (hexit : (Command.parse entry).map Prod.fst = some .exit) :
    steps setting (.reading buffer) input = (.ended (.ok ()), []) := by
  induction input generalizing buffer with
  | nil => simp [assemble] at h
  | cons line rest ih =>
    rcases assemble_cons h with ⟨longer, hread, hrest⟩ | ⟨text, others, hread, hfirst, hrest⟩
    · simp [steps, step_unfinished hread, ih hrest]
    · obtain ⟨rfl, rfl⟩ := List.cons.inj hfirst
      have hleaves : leaves (Request.ofEntry entry) = true := leaves_ofEntry_iff.2 hexit
      simp [steps, step, hread, hleaves, answer_of_leaves, steps_ended]

end

/-! ### Whole runs -/

theorem lines_append {a : List UInt8} (h : a = [] ∨ a.getLast? = some 10) (b : List UInt8) :
    lines (a ++ b) = lines a ++ lines b := by
  rcases h with rfl | hlast
  · rfl
  · obtain ⟨init, rfl⟩ := List.getLast?_eq_some_iff.1 hlast
    rw [List.append_assoc]
    exact lines_append_newline init b

section
variable (setting : Setting) {input : List UInt8} {entered : List String}
  (h : Enters input entered)
  (hstay : ∀ entry ∈ entered, (Command.parse entry).map Prod.fst ≠ some .exit)
include h hstay

/-- A run on an input with more behind it, step by step: the rest is read from the beginning. -/
theorem run_append (more : List UInt8) :
    run setting (input ++ more) =
      ((steps setting (.reading []) (lines more)).1.result,
        (run setting input).2 ++ (steps setting (.reading []) (lines more)).2) := by
  have hstate := steps_stays setting h.assembled hstay
  simp only [run, lines_append h.endsLine, steps_append, hstate, List.append_assoc]

theorem resumes (more : List UInt8) : Resumes setting input more := by
  have hrun := run_append setting h hstay more
  generalize hrest : (steps setting (.reading []) (lines more)).2 = rest at hrun
  have hmore : (run setting more).2 = opening setting ++ rest := by rw [← hrest]; rfl
  have happ : (run setting (input ++ more)).2 = (run setting input).2 ++ rest := by rw [hrun]
  refine ⟨by rw [hrun]; rfl, ⟨rest, hmore, happ⟩, fun hprompts => ?_, fun line => ?_⟩
  · have hopening : opening setting = banner := by simp [opening, prompt, hprompts]
    refine ⟨Emission.stdout rest, ?_, ?_⟩
    · rw [hmore, hopening, Emission.stdout_append]
    · rw [happ, Emission.stdout_append]
  · have hopening : Emission.stderr line (opening setting) = "" := by
      unfold opening prompt
      cases setting.prompts <;> rfl
    rw [hmore, happ, Emission.stderr_append, Emission.stderr_append, hopening, String.empty_append]

/-- **A session is the same after every entry as it is at its beginning.** What stands behind
entries that do not leave is read and answered as if they were not there, and behind the command to
leave it does not matter. -/
theorem run_append_of_enters :
    (∀ more, Resumes setting input more) ∧
      ∀ last entry, Enters last [entry] → (Command.parse entry).map Prod.fst = some .exit →
        ∀ more, run setting (input ++ (last ++ more)) = (.ok (), (run setting input).2) := by
  refine ⟨resumes setting h hstay, fun last entry hlast hexit more => ?_⟩
  have hleaves := steps_leaves setting hlast.assembled hexit
  rw [run_append setting h hstay, lines_append hlast.endsLine, steps_append, hleaves]
  simp [steps_ended, State.result]

end

/-- An entry of two lines, an empty one, a file that is not there and a rejected character, with an
open bracket and a line that is no text behind them; then the command to leave, on two lines and
with an argument. -/
theorem run_append_of_five_entries :
    let setting : Setting := ⟨false, fun _ => .error .notFound⟩
    let input := Text.toUtf8 "(1 +\r\n2)\n\n.load missing\n@\n.HELP me\n"
    let entered := ["(1 +\r\n2)", "", ".load missing", "@", ".HELP me"]
    let last := Text.toUtf8 " .Exit (\n) now\n"
    Enters input entered ∧
      (∀ entry ∈ entered, (Command.parse entry).map Prod.fst ≠ some .exit) ∧
      Resumes setting input [0x7b, 0x0a, 0xff, 0x0a] ∧
      Enters last [" .Exit (\n) now"] ∧
      (Command.parse " .Exit (\n) now").map Prod.fst = some .exit ∧
      run setting (input ++ (last ++ [0x7b, 0x0a, 0xff, 0x0a])) =
        (.ok (), (run setting input).2) := by
  intro setting input entered last
  have hinput : Enters input entered := ⟨.inr (by decide +kernel), by decide +kernel⟩
  have hstay : ∀ entry ∈ entered, (Command.parse entry).map Prod.fst ≠ some .exit := by
    decide +kernel
  have hlast : Enters last [" .Exit (\n) now"] := ⟨.inr (by decide +kernel), by decide +kernel⟩
  have hexit : (Command.parse " .Exit (\n) now").map Prod.fst = some .exit := by decide +kernel
  obtain ⟨hmore, hleave⟩ := run_append_of_enters setting hinput hstay
  exact ⟨hinput, hstay, hmore _, hlast, hexit, hleave last _ hlast hexit _⟩

end LoxFrontEnd.Session
