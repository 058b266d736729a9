import LoxFrontEnd.Proofs.Lexical.LineNumber

/-! Lines of a source.

An offset between two characters lies on a line, which it cuts in two. The line can be
found in two ways: around the offset, up to the nearest newlines (`OnLine`), and by its
number among the texts between the newlines (`lineText?`). Both give the same text
(`OnLine.number`). -/
namespace LoxFrontEnd

/-- The text of a line of a source, without the newline at its end. -/
def lineText? (source : String) : Nat → Option (List Char)
  | 0 => none
  | n + 1 => (source.toList.splitOn '\n')[n]?

/-- The line of the source on which an offset lies: `left` stands on it before the offset, and
`right` after it. -/
structure OnLine (source : String) (offset : Nat) (left right : List Char) : Prop where
  placed : ∃ earlier later, source.toList = earlier ++ (left ++ (right ++ later)) ∧
    offset = Text.width (earlier ++ left) ∧
    (∀ c, [c] <:+ earlier → c = '\n') ∧ ∀ c, [c] <+: later → c = '\n'
  left : '\n' ∉ left
  right : '\n' ∉ right

/-! ### Lines by number -/

/-- There is one line more than there are newlines. -/
theorem length_splitOn_newline (cs : List Char) :
    (cs.splitOn '\n').length = cs.count '\n' + 1 := by
  induction cs with
  | nil => rfl
  | cons c cs ih =>
    rw [List.splitOn_cons_eq_if_modifyHead]
    by_cases hc : c = '\n'
    · subst hc
      simp [ih]
    · simp [hc, ih]

theorem splitOn_head {line later : List Char} (hline : '\n' ∉ line)
    (hlater : ∀ c, [c] <+: later → c = '\n') :
    ((line ++ later).splitOn '\n')[0]? = some line := by
  cases later with
  | nil => rw [List.append_nil, List.splitOn_eq_singleton hline, List.getElem?_cons_zero]
  | cons c later =>
    obtain rfl := hlater c (List.prefix_append [c] later)
    rw [List.splitOn_append_cons_self_of_not_mem hline, List.getElem?_cons_zero]

/-- Before a line there are as many lines as newlines. -/
theorem splitOn_line {earlier line later : List Char} (hearlier : ∀ c, [c] <:+ earlier → c = '\n')
    (hline : '\n' ∉ line) (hlater : ∀ c, [c] <+: later → c = '\n') :
    ((earlier ++ (line ++ later)).splitOn '\n')[earlier.count '\n']? = some line := by
  rcases List.eq_nil_or_concat earlier with rfl | ⟨init, c, rfl⟩
  · exact splitOn_head hline hlater
  · rw [List.concat_eq_append] at hearlier ⊢
    obtain rfl := hearlier c (List.suffix_append init [c])
    have hcount : (init ++ ['\n']).count '\n' = (init.splitOn '\n').length := by
      rw [List.count_append, length_splitOn_newline]
      rfl
    rw [List.append_assoc, List.singleton_append, List.splitOn_append_cons_self, hcount,
      List.getElem?_append_right (Nat.le_refl _), Nat.sub_self]
    exact splitOn_head hline hlater

/-! ### Lines by offset -/

theorem exists_firstLine (cs : List Char) :
    ∃ line later, cs = line ++ later ∧ '\n' ∉ line ∧ ∀ c, [c] <+: later → c = '\n' := by
  refine ⟨cs.takeWhile (· != '\n'), cs.dropWhile (· != '\n'),
    List.takeWhile_append_dropWhile.symm, fun hmem => ?_, fun c hc => ?_⟩
  · simpa using List.mem_takeWhile_imp hmem
  · obtain ⟨rest, hrest⟩ := hc
    have hhead := List.head?_dropWhile_not (· != '\n') cs
    rw [← hrest, List.singleton_append, List.head?_cons] at hhead
    simpa using hhead

theorem exists_lastLine (cs : List Char) :
    ∃ earlier line, cs = earlier ++ line ∧ '\n' ∉ line ∧ ∀ c, [c] <:+ earlier → c = '\n' := by
  obtain ⟨line, later, hcs, hline, hlater⟩ := exists_firstLine cs.reverse
  refine ⟨later.reverse, line.reverse, ?_, mt List.mem_reverse.1 hline, fun c hc => ?_⟩
  · rw [← List.reverse_append, ← hcs, List.reverse_reverse]
  · refine hlater c ?_
    rw [← List.reverse_suffix]
    exact hc

section
variable {source : String}

/-- A text without a newline is on the line of the offset in front of it. -/
theorem exists_onLine_append {before text after : List Char} (htext : '\n' ∉ text)
    (h : source.toList = before ++ (text ++ after)) :
    ∃ left right, OnLine source (Text.width before) left (text ++ right) ∧ right <+: after := by
  obtain ⟨earlier, left, rfl, hleft, hearlier⟩ := exists_lastLine before
  obtain ⟨right, later, rfl, hright, hlater⟩ := exists_firstLine after
  rw [List.append_assoc, ← List.append_assoc text] at h
  refine ⟨left, right, ⟨⟨earlier, later, h, rfl, hearlier, hlater⟩, hleft, ?_⟩,
    List.prefix_append right later⟩
  rw [List.mem_append, not_or]
  exact ⟨htext, hright⟩

/-- Every offset between two characters is on a line. -/
theorem exists_onLine {before after : List Char} (h : source.toList = before ++ after) :
    ∃ left right, OnLine source (Text.width before) left right ∧ right <+: after :=
  exists_onLine_append List.not_mem_nil h

/-- A character that is no newline is on the line of its offset. -/
theorem exists_onLine_cons {before after : List Char} {c : Char} (hc : c ≠ '\n')
    (h : source.toList = before ++ c :: after) :
    ∃ left right, OnLine source (Text.width before) left (c :: right) ∧ right <+: after := by
  have hnewline : '\n' ∉ [c] := by simpa using hc.symm
  exact exists_onLine_append hnewline h

variable {offset : Nat} {left right : List Char}

theorem OnLine.newline_notMem (h : OnLine source offset left right) : '\n' ∉ left ++ right := by
  rw [List.mem_append, not_or]
  exact ⟨h.left, h.right⟩

/-- The number of the line on which an offset lies, and the text that has this number. -/
theorem OnLine.number (h : OnLine source offset left right) :
    ∃ line, lineAt source offset = .ok line ∧ lineText? source line = some (left ++ right) := by
  have hline := h.newline_notMem
  obtain ⟨⟨earlier, later, hsource, rfl, hearlier, hlater⟩, hleft, -⟩ := h
  refine ⟨1 + earlier.count '\n', lineAt_eq_ok_iff.2 ⟨earlier ++ left, right ++ later, ?_, rfl, ?_⟩,
    ?_⟩
  · rw [hsource, List.append_assoc]
  · rw [List.count_append, List.count_eq_zero.2 hleft, Nat.add_zero]
  · rw [Nat.add_comm, lineText?, hsource, ← List.append_assoc left]
    exact splitOn_line hearlier hline hlater

end

end LoxFrontEnd
