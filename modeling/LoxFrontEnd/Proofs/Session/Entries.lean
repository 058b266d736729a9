import LoxFrontEnd.Proofs.Session.Lines
import LoxFrontEnd.Proofs.Session.Nesting
import LoxFrontEnd.Session.Run

/-! Entries of a session.

The entries that a session makes of its lines, and the tokens that it lists for
them. What is written to the output is these tokens, entry by entry, as long as no
entry is a command (`stdout_steps`). -/
namespace LoxFrontEnd.Session

/-- The entry that a line completes. -/
def entryOf? : State → List UInt8 → Option String
  | .ended _, _ => none
  | .reading buffer, line => match read? buffer line with
    | some (.entry text) => some text
    | _ => none

/-- The entries that a session makes of its lines. -/
def entries (setting : Setting) (state : State) : List (List UInt8) → List String
  | [] => []
  | line :: rest => (entryOf? state line).toList ++ entries setting (step setting state line).1 rest

/-- The entries of a whole session on the bytes of its input. -/
def runEntries (setting : Setting) (input : List UInt8) : List String :=
  entries setting (.reading []) (lines input)

/-- The tokens that are listed for an entry that is no command. -/
def listed (entry : String) : List Token :=
  match Request.ofEntry entry with
  | .scan source => (scan source).tokens
  | .nothing | .command _ _ => []

/-- Tokens as they are written, one to a line. -/
def tokenLines (tokens : List Token) : String := String.join (tokens.map fun t => t.toText ++ "\n")

/-! ### What is shown -/

theorem stdout_flatMap {α : Type} {f : α → List Emission} (h : ∀ x, Emission.stdout (f x) = "")
    (xs : List α) : Emission.stdout (xs.flatMap f) = "" := by
  induction xs with
  | nil => rfl
  | cons x xs ih =>
    rw [List.flatMap_cons, Emission.stdout_append, h, ih]
    rfl

theorem stdout_logs (events : List Log.Event) : Emission.stdout (events.map .log) = "" := by
  rw [List.map_eq_flatMap]
  exact stdout_flatMap (fun _ => rfl) events

theorem stderr_eq_empty {log : Log.Event → Option String} {es : List Emission}
    (h : ∀ e ∈ es, e.errText log = "") : Emission.stderr log es = "" := by
  induction es with
  | nil => rfl
  | cons e es ih =>
    obtain ⟨he, hes⟩ := List.forall_mem_cons.1 h
    rw [← List.singleton_append, Emission.stderr_append, ih hes, String.append_empty]
    simp [Emission.stderr, he]

/-- Events that are not logged leave the error stream as it is. -/
theorem stderr_logs {log : Log.Event → Option String} {events : List Log.Event}
    (h : ∀ event ∈ events, log event = none) : Emission.stderr log (events.map .log) = "" :=
  stderr_eq_empty fun e he => by
    obtain ⟨event, hevent, rfl⟩ := List.mem_map.1 he
    rw [Emission.errText, h event hevent]
    rfl

theorem stdout_diagnostic (source : String) (d : Diagnostic) :
    Emission.stdout ((Listing.diagnostic source d).toOption.getD [Listing.headline d]) = "" := by
  unfold Listing.diagnostic
  cases Excerpt.ofSpan source d.span with
  | error e => rfl
  | ok e => cases e <;> rfl

theorem stdout_tokens (tokens : List Token) :
    Emission.stdout (tokens.map Listing.token) = tokenLines tokens := by
  rw [Emission.stdout, List.map_map]
  rfl

/-- The output has the tokens of a scan; faults go elsewhere. -/
theorem stdout_listing (source : String) :
    Emission.stdout (Listing.scanned source (scan source)) = tokenLines (scan source).tokens := by
  rw [Listing.scanned, Emission.stdout_append, stdout_tokens,
    stdout_flatMap (stdout_diagnostic source), String.append_empty]

theorem stdout_scanAndList (source : String) :
    Emission.stdout (scanAndList source) = tokenLines (scan source).tokens := by
  rw [scanAndList, Emission.stdout_append, stdout_logs, stdout_listing, String.empty_append]

theorem ofEntry_of_parse {entry : String} (h : Command.parse entry = none) :
    Request.ofEntry entry =
      if (Text.trim entry.toList).isEmpty then .nothing else .scan entry := by
  rw [Request.ofEntry, h]

theorem stdout_answer (setting : Setting) {entry : String} (h : Command.parse entry = none) :
    Emission.stdout (answer setting (Request.ofEntry entry)) = tokenLines (listed entry) := by
  unfold listed
  rw [ofEntry_of_parse h]
  by_cases hblank : (Text.trim entry.toList).isEmpty
  · rw [if_pos hblank]
    rfl
  · rw [if_neg hblank]
    exact stdout_scanAndList entry

theorem parse_of_blank {entry : String} (h : (Text.trim entry.toList).isEmpty = true) :
    Command.parse entry = none := by
  rw [Command.parse, List.isEmpty_iff.1 h]

theorem leaves_ofEntry_iff {entry : String} :
    leaves (Request.ofEntry entry) = true ↔
      (Command.parse entry).map Prod.fst = some .exit := by
  unfold Request.ofEntry
  by_cases hblank : (Text.trim entry.toList).isEmpty = true
  · simp [hblank, parse_of_blank hblank, leaves]
  · rw [if_neg hblank]
    cases hparse : Command.parse entry with
    | none => simp [leaves]
    | some parsed =>
      obtain ⟨c, argument⟩ := parsed
      cases c <;> simp [leaves]

/-! ### Steps -/

/-- A line of a text is never refused. -/
theorem read?_bytesOf (buffer line : List Char) :
    read? buffer (bytesOf line) = some (addLine buffer line) := by
  rw [read?, bytesOf, Text.ofUtf8?_toUtf8, Option.map_some, String.toList_ofList]

/-- What a line without backspaces makes of the text before it. -/
theorem read?_of_splitEnd {buffer line body lineEnd : List Char}
    (hsplit : splitEnd line = (body, lineEnd)) (hbackspace : '\x08' ∉ buffer ++ body) :
    read? buffer (bytesOf line) = some (
      if isComplete (String.ofList (buffer ++ body)) then .entry (String.ofList (buffer ++ body))
      else .unfinished (buffer ++ body ++ lineEnd)) := by
  rw [read?_bytesOf, addLine, hsplit]
  simp only [eraseBackspaces_of_notMem hbackspace]

section
variable {setting : Setting} {buffer : List Char} {line : List UInt8}

/-- A session goes on after an entry that is not the command to leave. -/
theorem step_entry {text : String} (hread : read? buffer line = some (.entry text))
    (h : (Command.parse text).map Prod.fst ≠ some .exit) :
    step setting (.reading buffer) line =
      (.reading [], answer setting (Request.ofEntry text) ++ prompt setting) := by
  have hstays : leaves (Request.ofEntry text) = false :=
    Bool.eq_false_iff.2 (mt leaves_ofEntry_iff.1 h)
  simp [step, hread, hstays]

theorem step_unfinished {longer : List Char}
    (hread : read? buffer line = some (.unfinished longer)) :
    step setting (.reading buffer) line = (.reading longer, []) := by
  simp [step, hread]

theorem entries_entry {text : String} (hread : read? buffer line = some (.entry text))
    (h : Command.parse text = none) (rest : List (List UInt8)) :
    entries setting (.reading buffer) (line :: rest) =
      text :: entries setting (.reading []) rest := by
  rw [entries, step_entry hread (by simp [h])]
  simp [entryOf?, hread]

theorem entries_unfinished {longer : List Char}
    (hread : read? buffer line = some (.unfinished longer)) (rest : List (List UInt8)) :
    entries setting (.reading buffer) (line :: rest) = entries setting (.reading longer) rest := by
  rw [entries, step_unfinished hread]
  simp [entryOf?, hread]

theorem mem_entries {text : String} (hread : read? buffer line = some (.entry text))
    (rest : List (List UInt8)) : text ∈ entries setting (.reading buffer) (line :: rest) := by
  simp [entries, entryOf?, hread]

end

/-- What one line adds to the output: the tokens of the entry that it completes, and the prompt
for the next one. -/
theorem stdout_step (setting : Setting) (state : State) (line : List UInt8)
    (h : ∀ entry ∈ entryOf? state line, Command.parse entry = none) :
    Emission.stdout (step setting state line).2 =
      String.join ((entryOf? state line).toList.map fun entry =>
        tokenLines (listed entry) ++ Emission.stdout (prompt setting)) := by
  cases state with
  | ended result => rfl
  | reading buffer =>
    cases hread : read? buffer line with
    | none =>
      simp [step, entryOf?, hread]
      rfl
    | some reading =>
      cases reading with
      | unfinished longer =>
        rw [step_unfinished hread]
        simp [entryOf?, hread]
        rfl
      | entry text =>
        have hentry : entryOf? (.reading buffer) line = some text := by simp [entryOf?, hread]
        rw [hentry] at h ⊢
        have hparse := h text rfl
        rw [step_entry hread (by simp [hparse]), Emission.stdout_append, stdout_answer setting hparse]
        simp

theorem stdout_steps (setting : Setting) (state : State) (input : List (List UInt8))
    (h : ∀ entry ∈ entries setting state input, Command.parse entry = none) :
    Emission.stdout (steps setting state input).2 =
      String.join ((entries setting state input).map fun entry =>
        tokenLines (listed entry) ++ Emission.stdout (prompt setting)) := by
  induction input generalizing state with
  | nil => rfl
  | cons line rest ih =>
    have hline : ∀ entry ∈ entryOf? state line, Command.parse entry = none :=
      fun entry hentry => h entry (List.mem_append_left _ (by simpa using hentry))
    have hrest := ih (step setting state line).1 fun entry hentry =>
      h entry (List.mem_append_right _ hentry)
    rw [entries, List.map_append, String.join_append, ← stdout_step setting state line hline,
      ← hrest]
    exact Emission.stdout_append _ _

end LoxFrontEnd.Session
