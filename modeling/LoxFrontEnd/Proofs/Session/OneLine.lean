import LoxFrontEnd.Proofs.CommandLine.Script
import LoxFrontEnd.Proofs.Lexical.WhiteSpace

/-! One line in a session.

A line that is an entry of its own and no command is scanned by a session as a script of
this line would be. The exception is a line of white space, for which nothing is shown at
all. There is more white space than the blanks that a scan passes over, and so a line can
be without an answer that has faults (`no_listing_of_no_break_space`). -/
namespace LoxFrontEnd.Session

/-- A session on one line. -/
def runLine (setting : Setting) (line : String) : Except Failure Unit × List Emission :=
  run setting (Text.toUtf8 (line ++ "\n"))

/-- A session on one line shows the listing of this line, behind its opening. -/
structure ListsLine (setting : Setting) (line : String) : Prop where
  result : (runLine setting line).1 = .ok ()
  output : Emission.stdout (runLine setting line).2 =
    Emission.stdout (opening setting) ++
      (Emission.stdout (Listing.scanned line (scan line)) ++ Emission.stdout (prompt setting))
  output_unprompted : setting.prompts = false →
    Emission.stdout (runLine setting line).2 =
      Emission.stdout banner ++ Emission.stdout (Listing.scanned line (scan line))
  errors : ∀ log : Log.Event → Option String, (∀ event ∈ scanEvents line, log event = none) →
    Emission.stderr log (runLine setting line).2 =
      Emission.stderr log (Listing.scanned line (scan line))
  /-- Scans are not logged as long as only warnings are. -/
  errors_unlogged : ∀ time, ∀ event ∈ scanEvents line,
    CommandLine.logLine (.ofLevel .warn) time event = none
  reported : ∀ d ∈ (scan line).diagnostics.reported,
    Listing.headline d ∈ (runLine setting line).2
  /-- Whatever is reported is also reported of a script of this line, and nothing else. -/
  script : ∀ path text, .err text ∈ (runLine setting line).2 ↔
    .err text ∈ (CommandLine.runScript path (.ok line)).2

/-! ### The run on one line -/

section
variable {setting : Setting} {line : String}

/-- A line alone that is no command is scanned between two prompts, unless it is blank. -/
theorem runLine_eq (hnewline : '\n' ∉ line.toList) (hreturn : '\r' ∉ line.toList)
    (hbackspace : '\x08' ∉ line.toList) (hcomplete : isComplete line = true)
    (hparse : Command.parse line = none) :
    runLine setting line = (.ok (), opening setting ++
      ((if line.toList.all Text.isWhiteSpace then [] else scanAndList line) ++
        prompt setting)) := by
  have hlines : lines (Text.toUtf8 (line ++ "\n")) = [bytesOf (line.toList ++ ['\n'])] := by
    rw [← bytesOf_toList, String.toList_append]
    exact lines_bytesOf_newline hnewline []
  have hread : read? [] (bytesOf (line.toList ++ ['\n'])) = some (.entry line) := by
    rw [read?_of_splitEnd (splitEnd_newline_of_notMem hreturn) hbackspace, List.nil_append,
      String.ofList_toList, if_pos hcomplete]
  have hanswer : answer setting (Request.ofEntry line) =
      if line.toList.all Text.isWhiteSpace then [] else scanAndList line := by
    rw [ofEntry_of_parse hparse, Text.isEmpty_trim]
    split <;> rfl
  rw [runLine, run, hlines, steps, step_entry hread (by simp [hparse]), hanswer]
  simp only [steps, State.result, List.append_nil]

/-- A session opens with nothing but output, the prompt included. -/
theorem exists_out_of_mem_opening {e : Emission} (h : e ∈ opening setting) :
    ∃ text, e = .out text := by
  have hprompt : e ∈ prompt setting → ∃ text, e = .out text := by
    unfold prompt
    cases setting.prompts
    · exact nofun
    · exact fun hmem => ⟨_, List.mem_singleton.1 hmem⟩
  rcases List.mem_append.1 h with hmem | hmem
  · simp only [banner, Session.line, List.mem_cons, List.not_mem_nil, or_false] at hmem
    rcases hmem with rfl | rfl <;> exact ⟨_, rfl⟩
  · exact hprompt hmem

theorem mem_opening_of_mem_prompt {e : Emission} (h : e ∈ prompt setting) : e ∈ opening setting :=
  List.mem_append_right banner h

/-- Neither the opening nor a prompt writes to the error stream. -/
theorem stderr_of_subset_opening {log : Log.Event → Option String} {es : List Emission}
    (h : ∀ e ∈ es, e ∈ opening setting) : Emission.stderr log es = "" :=
  stderr_eq_empty fun e he => by
    obtain ⟨text, rfl⟩ := exists_out_of_mem_opening (h e he)
    rfl

theorem err_notMem_opening (text : String) : .err text ∉ opening setting := fun h => by
  obtain ⟨other, hother⟩ := exists_out_of_mem_opening h
  cases hother

/-- The events of a scan are no warnings. -/
theorem logLine_of_mem_scanEvents {source : String} {event : Log.Event}
    (h : event ∈ scanEvents source) (time : String) :
    CommandLine.logLine (.ofLevel .warn) time event = none := by
  rw [scanEvents, List.mem_append, List.mem_map, List.mem_singleton] at h
  rcases h with ⟨f, -, rfl⟩ | rfl
  · cases f <;> rfl
  · rfl

/-- A run that answers a line with its scan lists the line. -/
theorem ListsLine.of_run (h : runLine setting line =
    (.ok (), opening setting ++ (scanAndList line ++ prompt setting))) :
    ListsLine setting line := by
  have houtput : Emission.stdout (runLine setting line).2 =
      Emission.stdout (opening setting) ++
        (Emission.stdout (Listing.scanned line (scan line)) ++
          Emission.stdout (prompt setting)) := by
    rw [h, Emission.stdout_append, Emission.stdout_append, stdout_scanAndList, stdout_listing]
  constructor
  case result => rw [h]
  case output => exact houtput
  case output_unprompted =>
    intro hprompts
    have hnone : prompt setting = [] := if_neg (by simp [hprompts])
    rw [houtput, opening, hnone, List.append_nil]
    exact congrArg _ (String.append_empty ..)
  case errors =>
    intro log hlog
    rw [h, Emission.stderr_append, Emission.stderr_append, stderr_of_subset_opening fun _ => id,
      stderr_of_subset_opening fun _ => mem_opening_of_mem_prompt, scanAndList,
      Emission.stderr_append, stderr_logs hlog]
    simp
  case errors_unlogged => exact fun time event hevent => logLine_of_mem_scanEvents hevent time
  case reported =>
    intro d hd
    rw [h]
    exact List.mem_append_right _ (List.mem_append_left _ (CommandLine.headline_mem_scanAndList hd))
  case script =>
    intro path text
    rw [h, CommandLine.err_mem_runScript_iff, List.mem_append, List.mem_append,
      or_iff_right (err_notMem_opening text),
      or_iff_left (mt mem_opening_of_mem_prompt (err_notMem_opening text))]

/-- No listing is empty: it has the end of the source. -/
theorem length_stdout_listing_pos (source : String) :
    0 < (Emission.stdout (Listing.scanned source (scan source))).length := by
  obtain ⟨others, hlisting⟩ := CommandLine.tokenLines_scan source
  have hlast : "EOF  null\n".length = 10 := rfl
  rw [stdout_listing, hlisting, String.length_append]
  omega

theorem not_listsLine_of_run (h : runLine setting line =
    (.ok (), opening setting ++ prompt setting)) : ¬ ListsLine setting line := by
  intro hlists
  have hlength := congrArg String.length hlists.output
  have hpos := length_stdout_listing_pos line
  rw [h, Emission.stdout_append] at hlength
  simp only [String.length_append] at hlength
  omega

end

/-- **A line in a session is listed like a script**, unless there is nothing but white space
on it. Then nothing is shown between the two prompts. -/
theorem runLine_lists_unless_blank (setting : Setting) (line : String)
    (hnewline : '\n' ∉ line.toList) (hreturn : '\r' ∉ line.toList)
    (hbackspace : '\x08' ∉ line.toList) (hcomplete : isComplete line = true)
    (hparse : Command.parse line = none) :
    (ListsLine setting line ↔ ∃ c ∈ line.toList, Text.isWhiteSpace c = false) ∧
      ((∀ c ∈ line.toList, Text.isWhiteSpace c = true) →
        runLine setting line = (.ok (), opening setting ++ prompt setting)) := by
  have hrun : runLine setting line = _ :=
    runLine_eq hnewline hreturn hbackspace hcomplete hparse
  by_cases hblank : line.toList.all Text.isWhiteSpace = true
  · rw [if_pos hblank] at hrun
    exact ⟨iff_of_false (not_listsLine_of_run hrun) (by simpa using hblank), fun _ => hrun⟩
  · rw [if_neg hblank] at hrun
    exact ⟨iff_of_true (.of_run hrun) (by simpa using hblank),
      fun h => absurd (List.all_eq_true.2 h) hblank⟩

/-- Two rejected characters, one of them white space. -/
theorem runLine_lists_rejected_characters :
    ListsLine ⟨false, fun _ => .error .notFound⟩ "\u00a0 x = § \"é\"" :=
  (runLine_lists_unless_blank _ _ (by decide) (by decide) (by decide) (by decide +kernel)
    (by decide +kernel)).1.2 ⟨'x', by decide, by decide⟩

/-- A space that must not be broken is a line with a fault. A session passes over it in
silence. -/
theorem no_listing_of_no_break_space :
    ('\n' ∉ "\u00a0".toList ∧ '\r' ∉ "\u00a0".toList ∧ '\x08' ∉ "\u00a0".toList) ∧
      (∃ c ∈ "\u00a0".toList, c ≠ ' ' ∧ c ≠ '\t') ∧ isComplete "\u00a0" = true ∧
      Command.parse "\u00a0" = none ∧
      Emission.stdout (runLine ⟨false, fun _ => .error .notFound⟩ "\u00a0").2 ≠
        Emission.stdout banner ++ Emission.stdout (Listing.scanned "\u00a0" (scan "\u00a0")) ∧
      Emission.stderr (fun _ => none)
        (runLine ⟨false, fun _ => .error .notFound⟩ "\u00a0").2 ≠
        Emission.stderr (fun _ => none) (Listing.scanned "\u00a0" (scan "\u00a0")) := by
  have hblank : "\u00a0".toList.all Text.isWhiteSpace = true := by decide
  have hrun : runLine ⟨false, fun _ => .error .notFound⟩ "\u00a0" = _ :=
    runLine_eq (by decide) (by decide) (by decide) (by decide +kernel) (by decide +kernel)
  rw [if_pos hblank] at hrun
  have hshown : (runLine ⟨false, fun _ => .error .notFound⟩ "\u00a0").2 = banner := by
    rw [hrun]
    simp [opening, prompt]
  rw [hshown]
  refine ⟨by decide, ⟨'\u00a0', by decide⟩, by decide +kernel, by decide +kernel, fun h => ?_, ?_⟩
  · have hlength : (Emission.stdout banner).length = _ := congrArg String.length h
    have hpos := length_stdout_listing_pos "\u00a0"
    rw [String.length_append] at hlength
    omega
  · decide +kernel

end LoxFrontEnd.Session
