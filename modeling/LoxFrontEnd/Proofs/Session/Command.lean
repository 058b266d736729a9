import LoxFrontEnd.Proofs.Session.CommandGrammar
import LoxFrontEnd.Proofs.Session.Entries

/-! Commands as entries.

Whether an entry is complete is settled before anyone asks what it means, and so the
argument of a command is read as if it were source. A command is complete on its line if
its argument is (`isComplete_command_iff`); any other one waits for more lines, which then
belong to its argument (`isComplete_load_open_paren`). -/
namespace LoxFrontEnd.Session

/-! ### What a command is written like -/

/-- A dot, a name of the command in letters of either case, and what the argument is cut from. -/
theorem Command.exists_of_parse {input : String} {c : Command} {argument : Option String}
    (h : Command.parse input = some (c, argument)) :
    ∃ name rest, Text.trim input.toList = '.' :: (name ++ rest) ∧
      String.ofList (name.map Char.toLower) ∈ c.names ∧
      argument = if (Text.trim rest).isEmpty then none
        else some (String.ofList (Text.trim rest)) := by
  obtain ⟨name, rest, hspells⟩ := exists_spells_of_parse h
  refine ⟨name, rest, hspells.text, hspells.isName, hspells.argument_eq.trans ?_⟩
  by_cases hrest : rest = []
  · rw [if_pos hrest, hrest]
    rfl
  · have hne := trim_rest_ne_nil hspells.text hrest
    rw [if_neg hrest, if_neg (by simpa using hne)]

/-! ### Plain characters -/

theorem isPlain_of_isWhiteSpace {c : Char} (h : Text.isWhiteSpace c = true) : IsPlain c := by
  refine ⟨?_, ?_, ?_, ?_, ?_, ?_⟩ <;> exact ne_of_apply_ne Text.isWhiteSpace (by rw [h]; decide)

theorem isPlain_of_mem_names (c : Command) : ∀ name ∈ c.names, ∀ x ∈ name.toList, IsPlain x := by
  have hall : c.names.all (fun name => name.toList.all (decide <| IsPlain ·)) = true := by
    cases c <;> decide
  exact fun name hname => isPlain_of_all (List.all_eq_true.1 hall name hname)

theorem isPlain_of_toLower {c : Char} (h : IsPlain c.toLower) : IsPlain c := by
  refine ⟨?_, ?_, ?_, ?_, ?_, ?_⟩ <;> (rintro rfl; exact absurd h (by decide))

theorem isPlain_of_name {c : Command} {name : List Char}
    (h : String.ofList (name.map Char.toLower) ∈ c.names) : ∀ x ∈ name, IsPlain x := by
  intro x hx
  refine isPlain_of_toLower (isPlain_of_mem_names c _ h x.toLower ?_)
  rw [String.toList_ofList]
  exact List.mem_map_of_mem hx

/-- Plain characters around a text make no difference. -/
theorem isCompleteFrom_between {before after : List Char} (hbefore : ∀ c ∈ before, IsPlain c)
    (hafter : ∀ c ∈ after, IsPlain c) (awaited cs : List Char) :
    isCompleteFrom .code awaited (before ++ (cs ++ after)) = isCompleteFrom .code awaited cs :=
  (isCompleteFrom_plain hbefore _).trans (isCompleteFrom_append_plain hafter .code awaited cs)

theorem isCompleteFrom_trim (awaited cs : List Char) :
    isCompleteFrom .code awaited (Text.trim cs) = isCompleteFrom .code awaited cs := by
  obtain ⟨before, after, hcs, hbefore, hafter⟩ := Text.exists_trim cs
  conv => rhs; rw [hcs]
  exact (isCompleteFrom_between (fun c hc => isPlain_of_isWhiteSpace (hbefore c hc))
    (fun c hc => isPlain_of_isWhiteSpace (hafter c hc)) awaited (Text.trim cs)).symm

/-! ### Complete commands -/

/-- **A command is complete exactly if it has no argument or one that is complete.** -/
theorem isComplete_command_iff {line : String} {c : Command} {argument : Option String}
    (h : Command.parse line = some (c, argument)) :
    isComplete line = true ↔ ∀ a ∈ argument, isComplete a = true := by
  obtain ⟨name, rest, htrim, hname, hargument⟩ := Command.exists_of_parse h
  have hplain : ∀ x ∈ '.' :: name, IsPlain x :=
    List.forall_mem_cons.2 ⟨by decide, isPlain_of_name hname⟩
  have hline : isComplete line = isCompleteFrom .code [] (Text.trim rest) := calc
    isCompleteFrom .code [] line.toList
      = isCompleteFrom .code [] (('.' :: name) ++ rest) := by
        rw [← isCompleteFrom_trim, htrim, List.cons_append]
    _ = isCompleteFrom .code [] rest := isCompleteFrom_plain hplain rest
    _ = isCompleteFrom .code [] (Text.trim rest) := (isCompleteFrom_trim [] rest).symm
  rw [hline, hargument]
  by_cases hempty : (Text.trim rest).isEmpty = true
  · rw [if_pos hempty, List.isEmpty_iff.1 hempty]
    simp [isCompleteFrom]
  · rw [if_neg hempty]
    simp [isComplete, String.toList_ofList]

/-- A path with closed brackets, white space around it and the command in capitals. -/
theorem isComplete_load_closed_paren :
    Command.parse "\t.LOAD  my (old) file.lox " = some (.load, some "my (old) file.lox") ∧
      (isComplete "\t.LOAD  my (old) file.lox " = true ↔
        ∀ a ∈ some "my (old) file.lox", isComplete a = true) := by
  have hparse : Command.parse "\t.LOAD  my (old) file.lox " =
      some (.load, some "my (old) file.lox") := by decide +kernel
  exact ⟨hparse, isComplete_command_iff hparse⟩

/-- A path with an open bracket keeps the command from being carried out: the line after it is
added to the path, and at the end of the input there is no entry. -/
theorem isComplete_load_open_paren :
    Command.parse ".load a(b.lox" = some (.load, some "a(b.lox") ∧
      isComplete ".load a(b.lox" = false ∧
      runEntries ⟨false, fun _ => .error .notFound⟩ (Text.toUtf8 ".load a(b.lox\nprint 1;\n") = [] :=
  ⟨by decide +kernel, by decide +kernel, by decide +kernel⟩

end LoxFrontEnd.Session
