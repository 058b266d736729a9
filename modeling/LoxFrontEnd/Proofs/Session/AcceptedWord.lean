import LoxFrontEnd.Proofs.Session.Completion
import Mathlib.Data.List.Nodup

/-! What is offered behind an accepted word.

No word of the list begins another one. So when the rest of a candidate is put in, the word
at the place of typing is a word of the list, and that word is the only one that begins
with it: it is offered once more with nothing left to type, and there is no hint
(`accepted_word_is_final`). What stands in front of the word is not touched, and the
search back from the new place stops where it stopped before. -/
namespace LoxFrontEnd.Session

/-- No word of the list begins another one. -/
theorem words_prefix_free : ∀ v ∈ words, ∀ w ∈ words, v.toList <+: w.toList → v = w := by
  have hall : words.all (fun v => words.all fun w => v == w || !v.toList.isPrefixOf w.toList) =
      true := by decide +kernel
  intro v hv w hw hprefix
  have hboth := List.all_eq_true.1 (List.all_eq_true.1 hall v hv) w hw
  rw [Bool.or_eq_true, Bool.not_eq_true', beq_iff_eq] at hboth
  rcases hboth with rfl | hno
  · rfl
  · rw [List.isPrefixOf_iff_prefix.2 hprefix] at hno
    cases hno

theorem words_nodup : words.Nodup := by decide +kernel

theorem isWordChar_of_mem_words {w : String} (hw : w ∈ words) :
    ∀ c ∈ w.toList, isWordChar c = true := by
  have hall : words.all (fun w => w.toList.all isWordChar) = true := by decide +kernel
  exact List.all_eq_true.1 (List.all_eq_true.1 hall w hw)

/-! ### The word after acceptance -/

/-- A word is the last one if no character of words stands in front of it. -/
theorem LastWord.of_bounded {left word : List Char} (hword : ∀ c ∈ word, Session.isWordChar c = true)
    (hleft : ∀ c, [c] <:+ left → Session.isWordChar c = false) :
    LastWord (left ++ word) left word := by
  refine ⟨rfl, hword, fun run hrun hall => ?_⟩
  rcases List.suffix_or_suffix_of_suffix hrun (List.suffix_append left word) with hshort | hlong
  · exact hshort
  · obtain ⟨more, rfl⟩ := hlong
    obtain ⟨init, hinit⟩ := hrun
    rw [← List.append_assoc, List.append_cancel_right_eq] at hinit
    rcases List.eq_nil_or_concat more with rfl | ⟨first, c, rfl⟩
    · exact List.suffix_refl word
    · rw [List.concat_eq_append] at hinit hall
      have hplain := hleft c ⟨init ++ first, by rw [← hinit, List.append_assoc]⟩
      rw [hall c (by simp)] at hplain
      cases hplain

/-- Typing on in the same word leaves its start where it was. -/
theorem LastWord.extend {before left word longer : List Char} (h : LastWord before left word)
    (hlonger : ∀ c ∈ longer, Session.isWordChar c = true) :
    LastWord (left ++ longer) left longer :=
  .of_bounded hlonger fun _ hc => h.bounded hc

/-! ### Its candidates -/

/-- Of a word of the list only that word itself is a candidate, and nothing of it is left. -/
theorem candidatesFor_word {w : String} (hw : w ∈ words) : candidatesFor w.toList = [⟨w, ""⟩] := by
  have hne : w.toList ≠ [] := by
    have hall : words.all (fun v => decide (v.toList ≠ [])) = true := by decide +kernel
    exact of_decide_eq_true (List.all_eq_true.1 hall w hw)
  have honly : (words.filter fun v => w.toList ≠ [] ∧ w.toList <+: v.toList) = [w] := by
    have hsame : (words.filter fun v => w.toList ≠ [] ∧ w.toList <+: v.toList) =
        words.filter fun v => v == w := by
      refine List.filter_congr fun v hv => ?_
      rw [Bool.eq_iff_iff, decide_eq_true_iff, beq_iff_eq]
      constructor
      · exact fun h => (words_prefix_free w hw v hv h.2).symm
      · rintro rfl
        exact ⟨hne, List.prefix_refl _⟩
    rw [hsame, List.filter_beq, List.count_eq_one_of_mem words_nodup hw]
    rfl
  rw [candidatesFor, honly, List.map_singleton, candidateFor, List.drop_eq_nil_of_le (by simp)]

theorem hintFor_word {w : String} (hw : w ∈ words) : hintFor w.toList = none := by
  rw [hintFor, candidatesFor_word hw]
  split <;> rfl

theorem word_mem_of_mem_candidatesFor {typed : List Char} {c : Candidate}
    (h : c ∈ candidatesFor typed) : c.word ∈ words := by
  obtain ⟨w, hw, rfl⟩ := List.mem_map.1 h
  exact (List.mem_filter.1 hw).1

/-! ### The line after acceptance -/

/-- The line with the rest of a candidate put in between its two parts. -/
def acceptedLine (before after : List Char) (c : Candidate) : String :=
  String.ofList (before ++ (c.rest.toList ++ after))

/-- **Accepting a candidate is final.** Behind the rest that was put in, the same word is
offered once more, with nothing left of it, and no other; at the end of the line there is no
hint. -/
theorem accepted_word_is_final (line : String) (pos : Nat) {before after : List Char}
    (h : Text.splitAt? pos line.toList = some (before, after)) {offered : Completion}
    (hoffered : completion line pos = .ok offered) {c : Candidate} (hc : c ∈ offered.candidates) :
    completion (acceptedLine before after c) (pos + c.rest.utf8ByteSize) =
        .ok ⟨pos + c.rest.utf8ByteSize, [⟨c.word, ""⟩]⟩ ∧
      (after = [] →
        hint (acceptedLine before after c) (pos + c.rest.utf8ByteSize) = .ok none) := by
  obtain ⟨hline, rfl⟩ := Text.splitAt?_eq_some_iff.1 h
  obtain ⟨left, word, hlast⟩ := exists_lastWord before
  rw [completion_eq hline hlast] at hoffered
  obtain rfl := Except.ok.inj hoffered
  obtain ⟨hstarts, heq⟩ := mem_candidatesFor hc
  have hword := word_mem_of_mem_candidatesFor hc
  have hrest : word ++ c.rest.toList = c.word.toList := by
    conv => lhs; rw [heq]
    exact append_rest hstarts
  -- The new line up to the new place is the text in front of the word and the whole word.
  have hbefore : before ++ c.rest.toList = left ++ c.word.toList := by
    rw [hlast.eq_append, List.append_assoc, hrest]
  have hnew : (acceptedLine before after c).toList = (left ++ c.word.toList) ++ after := by
    rw [acceptedLine, String.toList_ofList, ← List.append_assoc, hbefore]
  have hplace : Text.width before + c.rest.utf8ByteSize = Text.width (left ++ c.word.toList) := by
    rw [← hbefore, Text.width_append, Text.width_toList]
  have hnewLast := hlast.extend (isWordChar_of_mem_words hword)
  rw [hplace]
  constructor
  · rw [completion_eq hnew hnewLast, candidatesFor_word hword]
  · intro hafter
    rw [hint_eq hnew hnewLast, hintFor_word hword, ite_self]

/-- The second of three words that are offered behind a character of two bytes, at the end of the
line. -/
theorem accepted_word_is_final_behind_umlaut :
    completion "ü;f" 4 = .ok ⟨4, [⟨"false", "alse"⟩, ⟨"for", "or"⟩, ⟨"fun", "un"⟩]⟩ ∧
      completion (acceptedLine "ü;f".toList [] ⟨"for", "or"⟩) 6 = .ok ⟨6, [⟨"for", ""⟩]⟩ ∧
      hint (acceptedLine "ü;f".toList [] ⟨"for", "or"⟩) 6 = .ok none := by
  have hcut : Text.splitAt? 4 "ü;f".toList = some ("ü;f".toList, []) := by decide
  have hoffered : completion "ü;f" 4 =
      .ok ⟨4, [⟨"false", "alse"⟩, ⟨"for", "or"⟩, ⟨"fun", "un"⟩]⟩ := by decide +kernel
  have hfinal := accepted_word_is_final "ü;f" 4 hcut hoffered (c := ⟨"for", "or"⟩) (by decide)
  exact ⟨hoffered, hfinal.1, hfinal.2 rfl⟩

/-- A command in front of a bracket. -/
example : completion ".l)" 2 = .ok ⟨2, [⟨".load", "oad"⟩]⟩ ∧
    acceptedLine ".l".toList ")".toList ⟨".load", "oad"⟩ = ".load)" ∧
    completion ".load)" 5 = .ok ⟨5, [⟨".load", ""⟩]⟩ := by decide +kernel

end LoxFrontEnd.Session
