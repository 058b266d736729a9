import LoxFrontEnd.Proofs.Lexical.WhiteSpace
import LoxFrontEnd.Proofs.Session.Entries

/-! Scripts in a session.

A script without commands can be fed to a session line by line: the entries that the
session makes of it list the tokens of the script (`replays_script`). An entry ends
only where no bracket and no string is open, so that what follows is again a script
with this property; the text that waits for its next line is never complete, so that
none of it is left over at the end. -/
namespace LoxFrontEnd

/-! ### Tokens of a longer text -/

theorem openedBy_eq (cs : List Char) :
    openedBy cs = ((tokensOf cs).map Prod.fst).foldlM nest [] := rfl

section
variable {lineEnd : List Char} (hend : IsLineEnd lineEnd)
include hend

/-- A bracket that is closed wrongly is so in a longer text as well. -/
theorem openedBy_eq_none (a b : List Char) (h : openedBy a = none) :
    openedBy (a ++ (lineEnd ++ b)) = none := by
  obtain ⟨more, hmore⟩ := tokensOf_prefix_lineEnd hend a b
  rw [openedBy_eq] at h
  rw [openedBy_eq, ← hmore, List.map_append, List.foldlM_append, h]
  rfl

/-- What follows a closed text and its line end is closed if all of it is. -/
theorem Closed.after {a b : List Char} (ha : Closed a) (h : Closed (a ++ (lineEnd ++ b))) :
    Closed b := by
  have hbrackets := h.brackets
  have hopened := ha.brackets
  rw [openedBy_eq] at hopened
  rw [openedBy_eq, tokensOf_append_lineEnd hend ha.string, List.map_append, List.foldlM_append,
    hopened] at hbrackets
  exact ⟨hbrackets, fun hb => h.string ((endsInString_append_lineEnd hend ha.string b).2 hb)⟩

end

namespace Session

/-- The text is made of the entries, each with its line end. The last one may have none. -/
inductive MadeOf : List String → List Char → Prop where
  | nil : MadeOf [] []
  | last {entry : String} : entry ≠ "" → MadeOf [entry] entry.toList
  | cons (entry : String) {lineEnd rest : List Char} {others : List String} : IsLineEnd lineEnd →
      MadeOf others rest → MadeOf (entry :: others) (entry.toList ++ (lineEnd ++ rest))

/-- The text of an entry that waits for its next line: nothing, or an incomplete text with its
line end. -/
inductive Waiting : List Char → Prop where
  | nothing : Waiting []
  | unfinished {body lineEnd : List Char} : IsLineEnd lineEnd →
      isComplete (String.ofList body) = false → Waiting (body ++ lineEnd)

theorem isComplete_append_lineEnd {lineEnd : List Char} (hend : IsLineEnd lineEnd)
    (body : List Char) :
    isComplete (String.ofList (body ++ lineEnd)) = isComplete (String.ofList body) := by
  have hplain : ∀ c ∈ lineEnd, IsPlain c := by
    rcases hend with rfl | rfl <;> exact isPlain_of_all (by decide)
  simp only [isComplete, String.toList_ofList]
  exact isCompleteFrom_append_plain hplain .code [] body

/-- A text that waits is not closed unless it is empty. -/
theorem Waiting.eq_nil {buffer : List Char} (h : Waiting buffer) (hclosed : Closed buffer) :
    buffer = [] := by
  cases h with
  | nothing => rfl
  | @unfinished body lineEnd hend hincomplete =>
    have hcomplete : isComplete (String.ofList (body ++ lineEnd)) = true :=
      (isComplete_ofList _).2 (.inr hclosed)
    rw [isComplete_append_lineEnd hend, hincomplete] at hcomplete
    cases hcomplete

/-- A session that waits with the given buffer makes entries of the given text when it reads the
lines, and lists its tokens. -/
structure Consumes (setting : Setting) (buffer : List Char) (input : List (List UInt8))
    (text : List Char) : Prop where
  finished : (steps setting (.reading buffer) input).1 = .reading []
  made : MadeOf (entries setting (.reading buffer) input) text
  tokens : (entries setting (.reading buffer) input).flatMap (fun entry => tokensOf entry.toList) =
    tokensOf text

section
variable {setting : Setting} {buffer : List Char} {line : List UInt8} {input : List (List UInt8)}
  {text : List Char}

theorem Consumes.nil : Consumes setting [] [] [] where
  finished := rfl
  made := .nil
  tokens := by simp [entries, tokensOf]

/-- A line that ends the last entry. -/
theorem Consumes.last {entry : List Char} (hne : entry ≠ [])
    (hread : read? buffer line = some (.entry (String.ofList entry)))
    (hparse : Command.parse (String.ofList entry) = none) :
    Consumes setting buffer [line] entry := by
  have hentries : entries setting (.reading buffer) [line] = [String.ofList entry] :=
    entries_entry hread hparse []
  have htext : String.ofList entry ≠ "" := fun h => hne (by simpa using congrArg String.toList h)
  refine ⟨?_, ?_, ?_⟩
  · simp [steps, step_entry hread (by simp [hparse])]
  · rw [hentries]
    conv => rhs; rw [← String.toList_ofList (l := entry)]
    exact .last htext
  · rw [hentries]
    simp

/-- A line that ends an entry. -/
theorem Consumes.entry {entry lineEnd : List Char} (h : Consumes setting [] input text)
    (hread : read? buffer line = some (.entry (String.ofList entry)))
    (hparse : Command.parse (String.ofList entry) = none) (hend : IsLineEnd lineEnd)
    (hentry : Closed entry) :
    Consumes setting buffer (line :: input) (entry ++ (lineEnd ++ text)) := by
  have hentries : entries setting (.reading buffer) (line :: input) = _ :=
    entries_entry hread hparse input
  refine ⟨?_, ?_, ?_⟩
  · simp [steps, step_entry hread (by simp [hparse]), h.finished]
  · rw [hentries]
    conv => rhs; rw [← String.toList_ofList (l := entry)]
    exact .cons _ hend h.made
  · rw [hentries, tokensOf_append_lineEnd hend hentry.string, List.flatMap_cons, h.tokens,
      String.toList_ofList]

/-- A line after which the entry goes on. -/
theorem Consumes.unfinished {longer : List Char} (h : Consumes setting longer input text)
    (hread : read? buffer line = some (.unfinished longer)) :
    Consumes setting buffer (line :: input) text := by
  have hentries : entries setting (.reading buffer) (line :: input) = _ :=
    entries_unfinished hread input
  refine ⟨?_, ?_, ?_⟩
  · simp [steps, step_unfinished hread, h.finished]
  · rw [hentries]
    exact h.made
  · rw [hentries]
    exact h.tokens

end

theorem consumes (setting : Setting) (rest : List Char) :
    ∀ buffer, Waiting buffer → Closed (buffer ++ rest) → '\x08' ∉ buffer ++ rest →
      (∀ entry ∈ entries setting (.reading buffer) (lines (bytesOf rest)),
        Command.parse entry = none) →
      Consumes setting buffer (lines (bytesOf rest)) (buffer ++ rest) := by
  induction rest using line_induction with
  | nil =>
    intro buffer hwaiting hclosed _ _
    rw [List.append_nil] at hclosed
    obtain rfl := hwaiting.eq_nil hclosed
    exact .nil
  | last a hne hline =>
    intro buffer _ hclosed hbackspace hparse
    have hcomplete := (isComplete_ofList _).2 (.inr hclosed)
    have hread := read?_of_splitEnd (splitEnd_of_notMem hline) hbackspace
    rw [if_pos hcomplete] at hread
    rw [lines_bytesOf hne hline] at hparse ⊢
    have hentry : buffer ++ a ≠ [] := List.append_ne_nil_of_right_ne_nil buffer hne
    exact .last hentry hread (hparse _ (mem_entries hread []))
  | line a b hline ih =>
    intro buffer _ hclosed hbackspace hparse
    obtain ⟨body, lineEnd, hsplit, hend, happ⟩ := splitEnd_newline a
    have htext : buffer ++ (a ++ '\n' :: b) = (buffer ++ body) ++ (lineEnd ++ b) := by
      rw [List.append_cons a '\n' b, ← happ]
      simp only [List.append_assoc]
    rw [htext] at hclosed hbackspace ⊢
    rw [lines_bytesOf_newline hline] at hparse ⊢
    rw [List.mem_append, not_or] at hbackspace
    have hread := read?_of_splitEnd hsplit hbackspace.1
    by_cases hcomplete : isComplete (String.ofList (buffer ++ body)) = true
    · rw [if_pos hcomplete] at hread
      have hentry : Closed (buffer ++ body) := by
        refine ((isComplete_ofList _).1 hcomplete).resolve_left fun hnone => ?_
        have := hclosed.brackets
        rw [openedBy_eq_none hend _ b hnone] at this
        cases this
      have hcommand := hparse _ (mem_entries hread _)
      rw [entries_entry hread hcommand] at hparse
      refine .entry (ih [] .nothing (hentry.after hend hclosed) ?_ ?_) hread hcommand hend hentry
      · exact fun hmem => hbackspace.2 (List.mem_append_right lineEnd hmem)
      · exact fun entry hmem => hparse entry (List.mem_cons_of_mem _ hmem)
    · rw [if_neg hcomplete] at hread
      rw [entries_unfinished hread] at hparse
      have hwaiting : Waiting (buffer ++ body ++ lineEnd) :=
        .unfinished hend (Bool.eq_false_iff.2 hcomplete)
      have happ : (buffer ++ body ++ lineEnd) ++ b = (buffer ++ body) ++ (lineEnd ++ b) :=
        List.append_assoc (buffer ++ body) lineEnd b
      rw [← happ] at hclosed ⊢
      refine (ih _ hwaiting hclosed ?_ hparse).unfinished hread
      rw [happ, List.mem_append, not_or]
      exact hbackspace

/-- The tokens listed for an entry are those of its text, also if it is blank. -/
theorem map_content_listed {entry : String} (h : Command.parse entry = none) :
    ((listed entry).filter (·.kind ≠ .eof)).map Token.content =
      (tokensOf entry.toList).map contentOf := by
  unfold listed
  rw [ofEntry_of_parse h]
  by_cases hblank : (Text.trim entry.toList).isEmpty = true
  · rw [if_pos hblank]
    rw [Text.isEmpty_trim, List.all_eq_true] at hblank
    rw [tokensOf_eq_nil hblank]
    rfl
  · rw [if_neg hblank]
    exact map_content_proper entry

theorem map_content_flatMap_listed {input : List String}
    (h : ∀ entry ∈ input, Command.parse entry = none) :
    ((input.flatMap listed).filter (·.kind ≠ .eof)).map Token.content =
      (input.flatMap fun entry => tokensOf entry.toList).map contentOf := by
  induction input with
  | nil => rfl
  | cons entry input ih =>
    have hentry := map_content_listed (h entry (List.mem_cons_self ..))
    have hinput := ih fun other hother => h other (List.mem_cons_of_mem entry hother)
    rw [List.flatMap_cons, List.filter_append, List.map_append, hentry, hinput, List.flatMap_cons,
      List.map_append]

/-- What comes of a script that a session reads as its input. -/
structure Replays (setting : Setting) (source : String) : Prop where
  /-- The session ends with its input, and no text waits for a line then. -/
  finished : (steps setting (.reading []) (lines (Text.toUtf8 source))).1 = .reading []
  result : (run setting (Text.toUtf8 source)).1 = .ok ()
  /-- The entries and their line ends are the script. -/
  made : MadeOf (runEntries setting (Text.toUtf8 source)) source.toList
  /-- The tokens listed for the entries are the tokens of the script. -/
  tokens : (((runEntries setting (Text.toUtf8 source)).flatMap listed).filter
      (·.kind ≠ .eof)).map Token.content =
    ((scan source).tokens.filter (·.kind ≠ .eof)).map Token.content
  /-- Nothing but the listed tokens and prompts is written to the output. -/
  output : Emission.stdout (run setting (Text.toUtf8 source)).2 =
    Emission.stdout (opening setting) ++
      String.join ((runEntries setting (Text.toUtf8 source)).map fun entry =>
        tokenLines (listed entry) ++ Emission.stdout (prompt setting))

/-- A script without backspaces, in which no string is left open and all brackets are nested and
closed, is listed entry by entry as it would be listed at once, unless one of its entries is a
command. -/
theorem replays_script (setting : Setting) (source : String) (hbackspace : '\x08' ∉ source.toList)
    (hstring : ∀ d ∈ (scan source).diagnostics.reported, d.fault ≠ .unterminatedString)
    (hbrackets : openBrackets (scan source).tokens = some [])
    (hparse : ∀ entry ∈ runEntries setting (Text.toUtf8 source), Command.parse entry = none) :
    Replays setting source := by
  have hclosed : Closed source.toList := closed_iff.2 ⟨hbrackets, hstring⟩
  have h := consumes setting source.toList [] .nothing hclosed hbackspace
  rw [bytesOf_toList, List.nil_append] at h
  obtain ⟨hfinished, hmade, htokens⟩ := h hparse
  refine ⟨hfinished, congrArg State.result hfinished, hmade, ?_, ?_⟩
  · rw [map_content_flatMap_listed hparse, runEntries, htokens, map_content_proper]
  · have hshown : (run setting (Text.toUtf8 source)).2 =
        opening setting ++ (steps setting (.reading []) (lines (Text.toUtf8 source))).2 := rfl
    rw [hshown, Emission.stdout_append, stdout_steps setting _ _ hparse, runEntries]

/-- A function over several lines, with a bracket in a string and one in a comment, an empty line,
and a number. -/
theorem replays_three_entries :
    runEntries ⟨false, fun _ => .error .notFound⟩
        (Text.toUtf8 "fun f(a) \x7b\n  print \"(\n\"; // )\r\n\x7d\n\n1.5") =
      ["fun f(a) \x7b\n  print \"(\n\"; // )\r\n\x7d", "", "1.5"] ∧
    Replays ⟨false, fun _ => .error .notFound⟩
      "fun f(a) \x7b\n  print \"(\n\"; // )\r\n\x7d\n\n1.5" :=
  ⟨by decide +kernel, replays_script _ _ (by decide) (by decide +kernel) (by decide +kernel)
    (by decide +kernel)⟩

end Session

end LoxFrontEnd
