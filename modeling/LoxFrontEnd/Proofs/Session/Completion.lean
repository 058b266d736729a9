import LoxFrontEnd.Proofs.Lexical.Placement
import LoxFrontEnd.Session.Completion
import Mathlib.Data.List.Find
import Mathlib.Data.List.Infix

/-! What is offered for a word.

The word under completion is found by a search back from the place of typing, and lies
between two characters whatever stands in front of it. The words of the list that begin
with it are offered, in the order of the list, and the rest of each is what it has more
than the one that was typed. A hint is the first rest that there is
(`completes_and_hints`): it is looked for apart from the candidates, and is one of them. -/
namespace LoxFrontEnd.Session

/-! ### The word at the end of a text -/

/-- The text ends with the word, and with no longer run of characters of words. -/
structure LastWord (before left word : List Char) : Prop where
  eq_append : before = left ++ word
  isWordChar : ∀ c ∈ word, isWordChar c = true
  longest : ∀ run, run <:+ before → (∀ c ∈ run, Session.isWordChar c = true) → run <:+ word

theorem exists_lastWord (before : List Char) : ∃ left word, LastWord before left word := by
  induction before using List.reverseRecOn with
  | nil => exact ⟨[], [], rfl, by simp, fun run hrun _ => hrun⟩
  | append_singleton init c ih =>
    by_cases hc : isWordChar c = true
    · obtain ⟨left, word, rfl, hword, hlongest⟩ := ih
      refine ⟨left, word ++ [c], by simp, ?_, fun run hrun hall => ?_⟩
      · simpa [or_imp, forall_and, hc] using hword
      · rcases List.suffix_concat_iff.1 hrun with rfl | ⟨run, rfl, hinit⟩
        · exact List.nil_suffix
        · refine List.suffix_concat_iff.2 (.inr ⟨run, rfl, hlongest run hinit fun x hx => ?_⟩)
          exact hall x (List.mem_append_left _ hx)
    · refine ⟨init ++ [c], [], by simp, by simp, fun run hrun hall => ?_⟩
      rcases List.suffix_concat_iff.1 hrun with rfl | ⟨run, rfl, -⟩
      · exact List.nil_suffix
      · exact absurd (hall c (by simp)) hc

namespace LastWord
variable {before left word : List Char}

/-- The character in front of the word belongs to no word. -/
theorem bounded (h : LastWord before left word) {c : Char} (hc : [c] <:+ left) :
    Session.isWordChar c = false := by
  by_contra hword
  obtain ⟨init, rfl⟩ := hc
  have hrun : c :: word <:+ before := ⟨init, by simp [h.eq_append]⟩
  have hall : ∀ x ∈ c :: word, Session.isWordChar x = true :=
    List.forall_mem_cons.2 ⟨by simpa using hword, h.isWordChar⟩
  have hlength := (h.longest _ hrun hall).length_le
  rw [List.length_cons] at hlength
  omega

end LastWord

/-! ### The search for its start -/

theorem snd_mem_of_mem_indicesFrom {offset : Nat} {cs : List Char} {p : Nat × Char}
    (h : p ∈ Text.indicesFrom offset cs) : p.2 ∈ cs := by
  induction cs generalizing offset with
  | nil => cases h
  | cons c cs ih =>
    rcases List.mem_cons.1 h with rfl | h
    · exact List.mem_cons_self ..
    · exact List.mem_cons_of_mem c (ih h)

section
variable {line : String} {before after left word : List Char}

theorem slice_before (h : line.toList = before ++ after) :
    Text.slice 0 (Text.width before) line.toList = .ok before :=
  Text.slice_eq_ok_iff.2 ⟨[], after, h, rfl, rfl⟩

/-- The search stops behind the text in front of the word. -/
theorem wordStart_eq (h : line.toList = before ++ after) (hword : LastWord before left word) :
    wordStart line (Text.width before) = .ok (Text.width left) := by
  have hnone : (Text.indicesFrom (0 + Text.width left) word).reverse.find?
      (fun p => !isWordChar p.2) = none := by
    rw [List.find?_eq_none]
    intro p hp
    simpa using hword.isWordChar _ (snd_mem_of_mem_indicesFrom (List.mem_reverse.1 hp))
  have hfound : (Text.indicesFrom 0 before).reverse.find? (fun p => !isWordChar p.2) =
      (Text.indicesFrom 0 left).reverse.find? fun p => !isWordChar p.2 := by
    rw [hword.eq_append, Text.indicesFrom_append, List.reverse_append, List.find?_append, hnone]
    rfl
  rw [wordStart, slice_before h]
  refine congrArg Except.ok ?_
  dsimp only
  rw [hfound]
  rcases List.eq_nil_or_concat left with rfl | ⟨init, c, rfl⟩
  · rfl
  · rw [List.concat_eq_append] at hword ⊢
    have hc := hword.bounded (List.suffix_append init [c])
    rw [Text.indicesFrom_append, List.reverse_append]
    simp [Text.indicesFrom, hc]

/-- The word lies between two characters of the line. -/
theorem slice_lastWord (h : line.toList = before ++ after) (hword : LastWord before left word) :
    Text.slice (Text.width left) (Text.width before) line.toList = .ok word := by
  refine Text.slice_eq_ok_iff.2 ⟨left, after, ?_, rfl, congrArg Text.width hword.eq_append⟩
  rw [h, hword.eq_append, List.append_assoc]

end

/-! ### The words that begin with it -/

/-- What a word of the list has more than the one that was typed. -/
def candidateFor (typed : List Char) (w : String) : Candidate :=
  ⟨w, String.ofList (w.toList.drop typed.length)⟩

/-- The candidates for a word, in the order of the list. -/
def candidatesFor (typed : List Char) : List Candidate :=
  (words.filter fun w => typed ≠ [] ∧ typed <+: w.toList).map (candidateFor typed)

/-- The hint for a word at the end of a line: the first rest that there is. -/
def hintFor (typed : List Char) : Option String :=
  if 2 ≤ Text.width typed then
    ((candidatesFor typed).find? (·.rest ≠ "")).map fun c => Text.dimmed c.rest
  else none

theorem restOf_eq {typed : List Char} {w : String} (h : typed <+: w.toList) :
    restOf typed w = .ok (candidateFor typed w).rest := by
  have hsplit := List.prefix_iff_eq_append.1 h
  have hslice : Text.slice (Text.width typed) (Text.width w.toList) w.toList =
      .ok (w.toList.drop typed.length) :=
    Text.slice_eq_ok_iff.2 ⟨typed, [], by rw [List.append_nil, hsplit], rfl, by rw [hsplit]⟩
  rw [restOf, hslice]
  rfl

theorem append_rest {typed : List Char} {w : String} (h : typed <+: w.toList) :
    typed ++ (candidateFor typed w).rest.toList = w.toList := by
  rw [candidateFor, String.toList_ofList]
  exact List.prefix_iff_eq_append.1 h

/-- The wider words are those of which a rest is left over. -/
theorem rest_ne_empty_iff {typed : List Char} {w : String} (h : typed <+: w.toList) :
    (candidateFor typed w).rest ≠ "" ↔ Text.width typed < Text.width w.toList := by
  have hwidth := congrArg Text.width (append_rest h)
  have hempty : (candidateFor typed w).rest = "" ↔
      Text.width (candidateFor typed w).rest.toList = 0 := by
    rw [Text.width_eq_zero, String.toList_eq_nil_iff]
  rw [Text.width_append] at hwidth
  rw [Ne, hempty]
  omega

theorem mapM_ok {α β ε : Type} {f : α → Except ε β} {g : α → β} {xs : List α}
    (h : ∀ x ∈ xs, f x = .ok (g x)) : xs.mapM f = .ok (xs.map g) := by
  induction xs with
  | nil => rfl
  | cons x xs ih =>
    obtain ⟨hx, hxs⟩ := List.forall_mem_cons.1 h
    rw [List.mapM_cons, hx, ih hxs]
    rfl

theorem mapM_candidate (typed : List Char) :
    (words.filter fun w => typed.isPrefixOf w.toList).mapM (candidate typed) =
      .ok ((words.filter fun w => typed.isPrefixOf w.toList).map (candidateFor typed)) := by
  refine mapM_ok fun w hw => ?_
  have hstarts := List.isPrefixOf_iff_prefix.1 (List.mem_filter.1 hw).2
  rw [candidate, restOf_eq hstarts]
  rfl

theorem candidatesFor_nil : candidatesFor [] = [] := by
  simp [candidatesFor]

theorem candidatesFor_of_ne_nil {typed : List Char} (h : typed ≠ []) : candidatesFor typed =
    (words.filter fun w => typed.isPrefixOf w.toList).map (candidateFor typed) := by
  rw [candidatesFor]
  congr 1
  refine List.filter_congr fun w _ => ?_
  rw [Bool.eq_iff_iff, decide_eq_true_iff, List.isPrefixOf_iff_prefix]
  exact and_iff_right h

/-- The first wider word is the first candidate of which something is still to be typed. -/
theorem find?_candidatesFor {typed : List Char} (h : typed ≠ []) :
    (candidatesFor typed).find? (·.rest ≠ "") =
      (words.find? fun w => typed.isPrefixOf w.toList &&
        Text.width typed < Text.width w.toList).map (candidateFor typed) := by
  rw [candidatesFor_of_ne_nil h, List.find?_map, List.find?_filter]
  congr 1
  refine List.find?_congr fun w _ => ?_
  rw [Bool.eq_iff_iff, decide_eq_true_iff, Bool.and_eq_true, decide_eq_true_iff]
  refine and_congr_right fun hw => ?_
  rw [Function.comp_apply, decide_eq_true_iff, rest_ne_empty_iff (List.isPrefixOf_iff_prefix.1 hw)]

section
variable {line : String} {before after left word : List Char}

theorem completion_eq (h : line.toList = before ++ after) (hword : LastWord before left word) :
    completion line (Text.width before) = .ok ⟨Text.width before, candidatesFor word⟩ := by
  rw [completion, wordStart_eq h hword]
  show (Text.slice (Text.width left) (Text.width before) line.toList >>= _) = _
  rw [slice_lastWord h hword]
  cases word with
  | nil =>
    rw [candidatesFor_nil]
    rfl
  | cons c word =>
    rw [candidatesFor_of_ne_nil (List.cons_ne_nil c word)]
    show ((words.filter _).mapM (candidate (c :: word)) >>= _) = _
    rw [mapM_candidate]
    rfl

theorem hint_of_not_at_end (h : line.toList = before ++ after) (hafter : after ≠ []) :
    hint line (Text.width before) = .ok none := by
  have hlt : Text.width before < Text.width line.toList := by
    have hpos := Nat.pos_of_ne_zero (mt Text.width_eq_zero.1 hafter)
    rw [h, Text.width_append]
    omega
  rw [hint]
  exact if_pos hlt

theorem hint_at_end (hword : LastWord line.toList left word) :
    hint line (Text.width line.toList) = .ok (hintFor word) := by
  have hline : line.toList = line.toList ++ [] := (List.append_nil _).symm
  simp only [hint, wordStart_eq hline hword, Nat.lt_irrefl, if_false]
  show (Text.slice (Text.width left) (Text.width line.toList) line.toList >>= _) = _
  rw [slice_lastWord hline hword, hintFor]
  show (if Text.width word < 2 then _ else _) = _
  by_cases hlt : Text.width word < 2
  · rw [if_pos hlt, if_neg (Nat.not_le.2 hlt)]
    rfl
  · have hne : word ≠ [] := by
      rintro rfl
      exact hlt (by simp)
    rw [if_neg hlt, if_pos (Nat.not_lt.1 hlt), find?_candidatesFor hne]
    cases hfind : words.find? fun w => word.isPrefixOf w.toList &&
        Text.width word < Text.width w.toList with
    | none => rfl
    | some w =>
      have hlonger := List.find?_some hfind
      have hstarts := List.isPrefixOf_iff_prefix.1 (Bool.and_eq_true_iff.1 hlonger).1
      show (restOf word w >>= _) = _
      rw [restOf_eq hstarts]
      rfl

theorem hint_eq (h : line.toList = before ++ after) (hword : LastWord before left word) :
    hint line (Text.width before) = .ok (if after = [] then hintFor word else none) := by
  by_cases hafter : after = []
  · rw [hafter, List.append_nil] at h
    rw [← h] at hword ⊢
    rw [if_pos hafter, hint_at_end hword]
  · rw [if_neg hafter, hint_of_not_at_end h hafter]

end

/-! ### What is offered at a place -/

/-- The candidates and the hint for the word between `left` and the text `after` the place of
typing. -/
structure Completes (line : String) (pos : Nat) (before left word after : List Char)
    (cs : List Candidate) (shown : Option String) : Prop where
  wordStart : wordStart line pos = .ok (Text.width left)
  completion : completion line pos = .ok ⟨pos, cs⟩
  hint : hint line pos = .ok shown
  words : cs.map Candidate.word = words.filter fun w => word ≠ [] ∧ word <+: w.toList
  /-- To put the rest in is to put the whole word in the place of the one that was typed. -/
  accepted : ∀ c ∈ cs, left ++ (c.word.toList ++ after) = before ++ (c.rest.toList ++ after)
  isSome_hint : shown.isSome ↔
    pos = line.utf8ByteSize ∧ 2 ≤ Text.width word ∧ ∃ c ∈ cs, c.rest ≠ ""
  hint_eq : shown.isSome → shown = (cs.find? (·.rest ≠ "")).map fun c => Text.dimmed c.rest

theorem mem_candidatesFor {typed : List Char} {c : Candidate} (h : c ∈ candidatesFor typed) :
    typed <+: c.word.toList ∧ c = candidateFor typed c.word := by
  obtain ⟨w, hw, rfl⟩ := List.mem_map.1 h
  exact ⟨(of_decide_eq_true (List.mem_filter.1 hw).2).2, rfl⟩

theorem map_word_candidatesFor (typed : List Char) : (candidatesFor typed).map Candidate.word =
    words.filter fun w => typed ≠ [] ∧ typed <+: w.toList := by
  rw [candidatesFor, List.map_map]
  exact List.map_id _

theorem isSome_hintFor (typed : List Char) : (hintFor typed).isSome ↔
    2 ≤ Text.width typed ∧ ∃ c ∈ candidatesFor typed, c.rest ≠ "" := by
  by_cases hle : 2 ≤ Text.width typed
  · rw [hintFor, if_pos hle, Option.isSome_map, List.find?_isSome]
    simp [hle]
  · rw [hintFor, if_neg hle]
    simp [hle]

theorem hintFor_eq {typed : List Char} (h : (hintFor typed).isSome) : hintFor typed =
    ((candidatesFor typed).find? (·.rest ≠ "")).map fun c => Text.dimmed c.rest :=
  if_pos ((isSome_hintFor typed).1 h).1

theorem at_end_iff {line : String} {before after : List Char} (h : line.toList = before ++ after) :
    Text.width before = line.utf8ByteSize ↔ after = [] := by
  rw [← Text.width_toList, h, Text.width_append, ← Text.width_eq_zero]
  omega

/-- **The candidates are the words that begin with the one at the place of typing, and the hint
is the first rest of a candidate.** -/
theorem completes_and_hints (line : String) (pos : Nat) {before after : List Char}
    (h : Text.splitAt? pos line.toList = some (before, after)) :
    ∃ left word cs shown, LastWord before left word ∧
      Completes line pos before left word after cs shown := by
  obtain ⟨hline, rfl⟩ := Text.splitAt?_eq_some_iff.1 h
  obtain ⟨left, word, hword⟩ := exists_lastWord before
  refine ⟨left, word, candidatesFor word, _, hword, wordStart_eq hline hword,
    completion_eq hline hword, hint_eq hline hword, map_word_candidatesFor word, ?_, ?_, ?_⟩
  · intro c hc
    obtain ⟨hstarts, heq⟩ := mem_candidatesFor hc
    rw [← append_rest hstarts, ← heq, hword.eq_append, List.append_assoc, List.append_assoc]
  · rw [at_end_iff hline]
    by_cases hafter : after = []
    · simpa [hafter] using isSome_hintFor word
    · simp [hafter]
  · intro hsome
    by_cases hafter : after = []
    · rw [if_pos hafter] at hsome ⊢
      exact hintFor_eq hsome
    · rw [if_neg hafter] at hsome
      cases hsome

/-- The word behind a character of two bytes. -/
theorem completes_and_hints_behind_umlaut :
    Text.splitAt? 6 "ü; fu".toList = some ("ü; fu".toList, []) ∧
      ∃ left word cs shown, LastWord "ü; fu".toList left word ∧
        Completes "ü; fu" 6 "ü; fu".toList left word [] cs shown :=
  have hend : Text.splitAt? 6 "ü; fu".toList = some ("ü; fu".toList, []) := by decide
  ⟨hend, completes_and_hints "ü; fu" 6 hend⟩

example : completion "ü.fun_é f" 11 =
    .ok ⟨11, [⟨"false", "alse"⟩, ⟨"for", "or"⟩, ⟨"fun", "un"⟩]⟩ := by decide

end LoxFrontEnd.Session
