import LoxFrontEnd.CommandLine.Run
import LoxFrontEnd.Proofs.Lexical.Clean
import LoxFrontEnd.Proofs.Session.Entries

/-! Runs on a script.

The exit status of a run on a script tells what the script is: bytes that are no text, a
clean text, or a text with faults (`run_script_ends`). Faults do not keep the tokens from
being listed. -/
namespace LoxFrontEnd.CommandLine

/-- The output of a run is the whole list of the tokens of a source, the end of the source in the
last line. -/
structure Lists (source : String) (o : Outcome) : Prop where
  output : o.stdout = Session.tokenLines (scan source).tokens
  last : ∃ lines, o.stdout = lines ++ "EOF  null\n"

/-- How a run on a script ends, by the bytes of the script. -/
structure ScriptEnds (bytes : List UInt8) (o : Outcome) : Prop where
  unreadable : Text.ofUtf8? bytes = none → o.status.code = 66 ∧ o.stdout = ""
  /-- Nothing is written to the error stream but the log. -/
  clean : ∀ source, Text.ofUtf8? bytes = some source → Clean source.toList →
    o.status.code = 0 ∧ (scan source).diagnostics.reported = [] ∧
      (∀ text, .err text ∉ o.shown) ∧ Lists source o
  faulty : ∀ source, Text.ofUtf8? bytes = some source → ¬ Clean source.toList →
    o.status.code = 65 ∧ (scan source).diagnostics.reported ≠ [] ∧
      (∀ d ∈ (scan source).diagnostics.reported, Listing.headline d ∈ o.shown) ∧ Lists source o

/-! ### What is shown of a source -/

theorem tokenLines_scan (source : String) :
    ∃ lines, Session.tokenLines (scan source).tokens = lines ++ "EOF  null\n" := by
  refine ⟨Session.tokenLines ((findings source).filterMap Finding.token?), ?_⟩
  rw [Session.tokenLines, scan, List.map_append, String.join_append]
  rfl

theorem headline_mem_diagnostic (source : String) (d : Diagnostic) :
    Listing.headline d ∈
      (Listing.diagnostic source d).toOption.getD [Listing.headline d] := by
  unfold Listing.diagnostic
  cases Excerpt.ofSpan source d.span with
  | error e => exact List.mem_singleton_self _
  | ok e => exact List.mem_cons_self ..

/-- Every diagnostic of a source is reported. -/
theorem headline_mem_scanAndList {source : String} {d : Diagnostic}
    (h : d ∈ (scan source).diagnostics.reported) : Listing.headline d ∈ scanAndList source :=
  List.mem_append_right _ (List.mem_append_right _
    (List.mem_flatMap.2 ⟨d, h, headline_mem_diagnostic source d⟩))

/-- Nothing is reported of a source without diagnostics. -/
theorem err_notMem_scanAndList {source : String} (h : (scan source).diagnostics.reported = [])
    (text : String) : .err text ∉ scanAndList source := by
  simp [scanAndList, Listing.scanned, h, Listing.token]

/-! ### A run -/

/-- The scan of a script is shown with nothing but events around it. -/
theorem runScript_ok (path source : String) :
    ∃ before after, runScript path (.ok source) =
      (if (scan source).hadError then .data else .success,
        List.map .log before ++ (scanAndList source ++ List.map .log after)) := by
  unfold runScript
  by_cases herror : (scan source).hadError = true
  · simp only [herror, if_true]
    exact ⟨[_], [_], rfl⟩
  · simp only [herror, if_false, Bool.false_eq_true]
    exact ⟨[_], [], by rw [List.map_nil, List.append_nil]; rfl⟩

theorem err_mem_runScript_iff {path source text : String} :
    .err text ∈ (runScript path (.ok source)).2 ↔ .err text ∈ scanAndList source := by
  obtain ⟨before, after, h⟩ := runScript_ok path source
  rw [h]
  simp

theorem stdout_runScript (path source : String) :
    Emission.stdout (runScript path (.ok source)).2 = Session.tokenLines (scan source).tokens := by
  obtain ⟨before, after, h⟩ := runScript_ok path source
  rw [h, Emission.stdout_append, Emission.stdout_append, Session.stdout_logs, Session.stdout_logs,
    Session.stdout_scanAndList, String.empty_append, String.append_empty]

theorem status_runScript (path source : String) :
    (runScript path (.ok source)).1 =
      if Clean source.toList then .success else .data := by
  obtain ⟨before, after, h⟩ := runScript_ok path source
  rw [h]
  by_cases hclean : Clean source.toList
  · have hnone : (scan source).hadError = false := hadError_eq_false_iff.2 hclean
    simp only [hclean, hnone, if_true, if_false, Bool.false_eq_true]
  · have hsome : (scan source).hadError = true := by
      rwa [← Bool.not_eq_false, hadError_eq_false_iff]
    simp only [hclean, hsome, if_true, if_false]

section
variable {e : Environment} {arguments : List String} {a : Arguments} {path : String}
  {files : Files.Tree} {bytes : List UInt8}
  (ha : Arguments.parse arguments e.history = .ok a) (hmode : a.mode = .script path)
  (hfile : files.read path = .ok bytes) (input : List UInt8)
include ha hmode hfile

/-- A run on a script depends on the bytes of the script. -/
theorem run_script :
    run e arguments files input =
      let (status, shown) := runScript path <| match Text.ofUtf8? bytes with
        | some source => .ok source
        | none => .error .notUtf8
      ⟨status, shown, filter e a.verbose, files⟩ := by
  have htext : files.readText path = match Text.ofUtf8? bytes with
      | some source => .ok source
      | none => .error .notUtf8 := by
    rw [Files.Tree.readText, hfile]
    rfl
  simp only [run, ha, hmode, htext]

section
variable {source : String} (htext : Text.ofUtf8? bytes = some source)
include htext

theorem run_lists : Lists source (run e arguments files input) := by
  have houtput : (run e arguments files input).stdout =
      Session.tokenLines (scan source).tokens := by
    rw [run_script ha hmode hfile, htext]
    exact stdout_runScript path source
  obtain ⟨lines, hlines⟩ := tokenLines_scan source
  exact ⟨houtput, lines, houtput.trans hlines⟩

theorem status_run :
    (run e arguments files input).status = if Clean source.toList then .success else .data := by
  rw [run_script ha hmode hfile, htext]
  exact status_runScript path source

theorem err_mem_run_iff {text : String} :
    .err text ∈ (run e arguments files input).shown ↔ .err text ∈ scanAndList source := by
  rw [run_script ha hmode hfile, htext]
  exact err_mem_runScript_iff

end

/-- **The exit status tells what the script is**: bytes that are no text, a clean text, or a text
with faults. A text is listed as a whole in any case. -/
theorem run_script_ends : ScriptEnds bytes (run e arguments files input) := by
  constructor
  case unreadable =>
    intro h
    rw [run_script ha hmode hfile, h]
    exact ⟨rfl, rfl⟩
  case clean =>
    intro source h hclean
    have hnone := clean_iff_reported_eq_nil.1 hclean
    refine ⟨?_, hnone, fun text => ?_, run_lists ha hmode hfile input h⟩
    · rw [status_run ha hmode hfile input h, if_pos hclean]
      rfl
    · rw [err_mem_run_iff ha hmode hfile input h]
      exact err_notMem_scanAndList hnone text
  case faulty =>
    intro source h hfaulty
    have hsome := mt clean_iff_reported_eq_nil.2 hfaulty
    refine ⟨?_, hsome, fun d hd => ?_, run_lists ha hmode hfile input h⟩
    · rw [status_run ha hmode hfile input h, if_neg hfaulty]
      rfl
    · exact (err_mem_run_iff ha hmode hfile input h).2 (headline_mem_scanAndList hd)

end

/-- A comment with a quote in it behind a string of two lines with slashes in it. -/
def cleanScript : String := "1./a \"é//\n\"// \"x"

/-- The same with a character that is rejected and a string that is never closed. -/
def faultyScript : String := "1./a § \"é//\n\"\" // x"

def threeScripts : Files.Tree :=
  ⟨[(["bytes"], .file [0x22, 0xFF, 0x22]), (["clean"], .file (Text.toUtf8 cleanScript)),
    (["faulty"], .file (Text.toUtf8 faultyScript))], []⟩

/-- A verbose run on a script, with nothing set in the environment. -/
def verboseRun (path : String) : Outcome :=
  run ⟨none, none, none, none, none⟩ ["-v", path] threeScripts []

theorem run_script_ends_three :
    ((verboseRun "bytes").status.code = 66 ∧ (verboseRun "bytes").stdout = "") ∧
      (verboseRun "clean").status.code = 0 ∧ (verboseRun "faulty").status.code = 65 ∧
      ∃ lines, (verboseRun "faulty").stdout = lines ++ "EOF  null\n" := by
  have hbytes : ScriptEnds [0x22, 0xFF, 0x22] (verboseRun "bytes") :=
    run_script_ends (a := ⟨["bytes"], true, none⟩) rfl rfl rfl []
  have hclean : ScriptEnds (Text.toUtf8 cleanScript) (verboseRun "clean") :=
    run_script_ends (a := ⟨["clean"], true, none⟩) rfl rfl rfl []
  have hfaulty : ScriptEnds (Text.toUtf8 faultyScript) (verboseRun "faulty") :=
    run_script_ends (a := ⟨["faulty"], true, none⟩) rfl rfl rfl []
  have hfaults := hfaulty.faulty faultyScript (Text.ofUtf8?_toUtf8 _) (by decide +kernel)
  exact ⟨hbytes.unreadable (by decide +kernel),
    (hclean.clean cleanScript (Text.ofUtf8?_toUtf8 _) (by decide +kernel)).1,
    hfaults.1, hfaults.2.2.2.last⟩

end LoxFrontEnd.CommandLine
