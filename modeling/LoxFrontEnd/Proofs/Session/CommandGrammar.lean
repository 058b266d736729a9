import LoxFrontEnd.Proofs.Lexical.WhiteSpace
import LoxFrontEnd.Proofs.Text.LowerCase
import LoxFrontEnd.Session.Command

/-! The grammar of commands.

A command is a dot and a name, and behind white space perhaps an argument, all of it with
white space around it (`Command.Spells`). The reader accepts exactly these texts, and gives
the argument back as it stands in them (`Command.parse_grammar`). A name is compared in lower
case; the names that there are have nothing but letters of ASCII and a question mark, and no
k, so that no other letter of Unicode is taken for one of theirs. -/
namespace LoxFrontEnd.Session.Command

/-! ### Names -/

theorem mem_all (c : Command) : c ∈ all := by cases c <;> decide

theorem mem_names_of_ofName? {name : String} {c : Command} (h : ofName? name = some c) :
    name ∈ c.names := by
  have hc := List.find?_some h
  exact List.contains_iff_mem.1 hc

/-- No two commands share a name. -/
theorem ofName?_eq_some_iff {name : String} {c : Command} :
    ofName? name = some c ↔ name ∈ c.names := by
  constructor
  · exact mem_names_of_ofName?
  · intro h
    have hall : all.all (fun c => c.names.all fun name => ofName? name == some c) = true := by
      decide +kernel
    exact beq_iff_eq.1 (List.all_eq_true.1 (List.all_eq_true.1 hall c (mem_all c)) name h)

theorem isAscii_of_mem_names {c : Command} {name : String} (h : name ∈ c.names) :
    ∀ x ∈ name.toList, Text.IsAscii x ∧ x ≠ 'k' := by
  have hall : c.names.all (fun name => name.toList.all fun x => Text.IsAscii x ∧ x ≠ 'k') = true := by
    cases c <;> decide +kernel
  intro x hx
  exact of_decide_eq_true (List.all_eq_true.1 (List.all_eq_true.1 hall name h) x hx)

/-- A name in lower case is looked for letter by letter, by the rule of ASCII. -/
theorem lowerCase_mem_names_iff {c : Command} {name : List Char} :
    String.ofList (Text.lowerCase name) ∈ c.names ↔
      String.ofList (name.map Char.toLower) ∈ c.names := by
  have hsame {target : List Char} (htarget : String.ofList target ∈ c.names) :
      Text.lowerCase name = target ↔ name.map Char.toLower = target := by
    refine Text.lowerCase_eq_iff fun x hx => isAscii_of_mem_names htarget x ?_
    rwa [String.toList_ofList]
  constructor
  · intro h
    rwa [(hsame h).1 rfl]
  · intro h
    rwa [(hsame h).2 rfl]

theorem isAscii_of_lowerCase_mem_names {c : Command} {name : List Char}
    (h : String.ofList (Text.lowerCase name) ∈ c.names) : ∀ x ∈ name, Text.IsAscii x := by
  refine Text.isAscii_of_lowerCase fun x hx => isAscii_of_mem_names h x ?_
  rwa [String.toList_ofList]

/-! ### Texts of commands -/

/-- The text, without the white space around it, is a dot, a name of the command in letters of
either case, and a rest that is empty or starts with white space. The argument is the rest
without the white space around it, if there is a rest. -/
structure Spells (input : String) (c : Command) (argument : Option String)
    (name rest : List Char) : Prop where
  text : Text.trim input.toList = '.' :: (name ++ rest)
  name_plain : ∀ x ∈ name, Text.isWhiteSpace x = false
  isName : String.ofList (name.map Char.toLower) ∈ c.names
  rest_start : ∀ x ∈ rest.head?, Text.isWhiteSpace x = true
  argument_eq : argument = if rest = [] then none else some (String.ofList (Text.trim rest))

/-- What is behind the name of a trimmed text is not all white space. -/
theorem trim_rest_ne_nil {input : String} {name rest : List Char}
    (h : Text.trim input.toList = '.' :: (name ++ rest)) (hrest : rest ≠ []) :
    Text.trim rest ≠ [] := by
  intro hempty
  have hall : rest.all Text.isWhiteSpace = true := by
    rw [← Text.isEmpty_trim, hempty]
    rfl
  obtain ⟨init, c, rfl⟩ := (List.eq_nil_or_concat rest).resolve_left hrest
  rw [List.concat_eq_append] at h hall
  have hlast : c ∈ (Text.trim input.toList).getLast? := by
    rw [h, ← List.cons_append, ← List.append_assoc, List.getLast?_concat]
    rfl
  have hc := List.all_eq_true.1 hall c (by simp)
  rw [Text.isWhiteSpace_getLast?_trim _ c hlast] at hc
  cases hc

/-- The name ends where the rest starts. -/
theorem takeWhile_name {name rest : List Char} (hname : ∀ x ∈ name, Text.isWhiteSpace x = false)
    (hrest : ∀ x ∈ rest.head?, Text.isWhiteSpace x = true) :
    (name ++ rest).takeWhile (!Text.isWhiteSpace ·) = name ∧
      (name ++ rest).dropWhile (!Text.isWhiteSpace ·) = rest := by
  have hplain : ∀ x ∈ name, (!Text.isWhiteSpace x) = true := fun x hx => by rw [hname x hx]; rfl
  rw [List.takeWhile_append_of_pos hplain, List.dropWhile_append_of_pos hplain]
  cases rest with
  | nil => simp
  | cons x rest =>
    have hx := hrest x rfl
    simp [hx]

theorem exists_spells_of_parse {input : String} {c : Command} {argument : Option String}
    (h : parse input = some (c, argument)) : ∃ name rest, Spells input c argument name rest := by
  unfold parse at h
  split at h
  · next text htrim =>
    obtain ⟨found, hfound, heq⟩ := Option.map_eq_some_iff.1 h
    obtain ⟨rfl, rfl⟩ := Prod.mk.inj heq
    have htext : Text.trim input.toList = '.' :: (text.takeWhile (!Text.isWhiteSpace ·) ++
        text.dropWhile (!Text.isWhiteSpace ·)) := by
      rw [htrim, List.takeWhile_append_dropWhile]
    refine ⟨_, _, htext, ?_, lowerCase_mem_names_iff.1 (mem_names_of_ofName? hfound), ?_, ?_⟩
    · intro x hx
      simpa using List.mem_takeWhile_imp hx
    · intro x hx
      have hhead := List.head?_dropWhile_not (!Text.isWhiteSpace ·) text
      rw [Option.mem_def.1 hx] at hhead
      simpa using hhead
    · by_cases hrest : text.dropWhile (!Text.isWhiteSpace ·) = []
      · rw [if_pos hrest, hrest]
        rfl
      · have hne := trim_rest_ne_nil htext hrest
        rw [if_neg hrest, if_neg (by simpa using hne)]
  · cases h

theorem parse_of_spells {input : String} {c : Command} {argument : Option String}
    {name rest : List Char} (h : Spells input c argument name rest) :
    parse input = some (c, argument) := by
  obtain ⟨hname, hrest⟩ := takeWhile_name h.name_plain h.rest_start
  have hfound := ofName?_eq_some_iff.2 (lowerCase_mem_names_iff.2 h.isName)
  simp only [parse, h.text, hname, hrest, hfound, Option.map_some, h.argument_eq]
  by_cases hempty : rest = []
  · rw [if_pos hempty, hempty]
    rfl
  · have hne := trim_rest_ne_nil h.text hempty
    rw [if_neg hempty, if_neg (by simpa using hne)]

/-- A name of a command, white space and an argument without white space at its ends. -/
theorem spells_of_argument {c : Command} {name argument : String} {blanks : List Char}
    (hname : name ∈ c.names) (hne : blanks ≠ [])
    (hblanks : ∀ x ∈ blanks, Text.isWhiteSpace x = true) (hargument : argument ≠ "")
    (htrim : Text.trim argument.toList = argument.toList) :
    Spells ("." ++ name ++ String.ofList blanks ++ argument) c (some argument) name.toList
      (blanks ++ argument.toList) := by
  have hlist : ("." ++ name ++ String.ofList blanks ++ argument).toList =
      '.' :: (name.toList ++ (blanks ++ argument.toList)) := by
    simp [String.toList_append, String.toList_ofList]
  obtain ⟨init, last, hlast⟩ := (List.eq_nil_or_concat argument.toList).resolve_left
    (mt String.toList_eq_nil_iff.1 hargument)
  have hends : ∀ x ∈ ("." ++ name ++ String.ofList blanks ++ argument).toList.getLast?,
      Text.isWhiteSpace x = false := by
    intro x hx
    refine Text.isWhiteSpace_getLast?_trim argument.toList x ?_
    rw [hlist, hlast, List.concat_eq_append, ← List.append_assoc, ← List.append_assoc,
      ← List.cons_append, List.getLast?_concat] at hx
    rw [htrim, hlast, List.concat_eq_append, List.getLast?_concat]
    exact hx
  have hlower : name.toList.map Char.toLower = name.toList := by
    have hall : c.names.all (fun name => name.toList.map Char.toLower == name.toList) = true := by
      cases c <;> decide +kernel
    exact beq_iff_eq.1 (List.all_eq_true.1 hall name hname)
  refine ⟨?_, ?_, ?_, ?_, ?_⟩
  · rw [Text.trim_of_ends (by rw [hlist]; simp; decide) hends, hlist]
  · have hall : c.names.all (fun name => name.toList.all (!Text.isWhiteSpace ·)) = true := by
      cases c <;> decide +kernel
    intro x hx
    simpa using List.all_eq_true.1 (List.all_eq_true.1 hall name hname) x hx
  · rwa [hlower, String.ofList_toList]
  · intro x hx
    obtain ⟨blank, more, rfl⟩ := List.exists_cons_of_ne_nil hne
    obtain rfl : blank = x := by simpa using hx
    exact hblanks blank (List.mem_cons_self ..)
  · rw [if_neg (by simp [hne]), Text.trim_append hblanks, htrim, String.ofList_toList]

/-! ### The grammar -/

/-- What is read as the command. -/
structure Grammar (c : Command) : Prop where
  parse_iff : ∀ input argument, parse input = some (c, argument) ↔
    ∃ name rest, Spells input c argument name rest
  argument_ne_empty : ∀ input argument, parse input = some (c, some argument) → argument ≠ ""
  /-- An argument is given back with all the white space inside it. -/
  argument_kept : ∀ name ∈ c.names, ∀ blanks : List Char, blanks ≠ [] →
    (∀ x ∈ blanks, Text.isWhiteSpace x = true) → ∀ argument : String, argument ≠ "" →
    Text.trim argument.toList = argument.toList →
    parse ("." ++ name ++ String.ofList blanks ++ argument) = some (c, some argument)
  /-- Only letters of ASCII are in lower case what the names are made of. -/
  isAscii_name : ∀ name : List Char, String.ofList (Text.lowerCase name) ∈ c.names →
    ∀ x ∈ name, Text.IsAscii x

/-- **The reader of commands accepts exactly their grammar.** -/
theorem parse_grammar (c : Command) : Grammar c := by
  refine ⟨fun input argument => ?_, ?_, ?_, fun _ => isAscii_of_lowerCase_mem_names⟩
  · constructor
    · exact exists_spells_of_parse
    · rintro ⟨name, rest, h⟩
      exact parse_of_spells h
  · rintro input argument h rfl
    obtain ⟨name, rest, hspells⟩ := exists_spells_of_parse h
    have hargument := hspells.argument_eq
    by_cases hrest : rest = []
    · rw [if_pos hrest] at hargument
      cases hargument
    · rw [if_neg hrest, Option.some.injEq] at hargument
      refine trim_rest_ne_nil hspells.text hrest ?_
      rw [← @String.toList_ofList (Text.trim rest), ← hargument]
      rfl
  · intro name hname blanks hne hblanks argument hargument htrim
    exact parse_of_spells (spells_of_argument hname hne hblanks hargument htrim)

/-- The Kelvin sign and the dotted capital I are no letters of a name, and an ideographic blank
ends one. -/
example : parse ".LOAD\u3000my  file.lox " = some (.load, some "my  file.lox") ∧
    parse ".EX\u0130T" = none ∧ parse ".\u212A" = none := by decide +kernel

end LoxFrontEnd.Session.Command
