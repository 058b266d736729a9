import LoxFrontEnd.Proofs.Lexical.LineEnd
import LoxFrontEnd.Session.Entry
import LoxFrontEnd.Text.Utf8

/-! Lines of a text.

The lines of a session's input are lines of bytes. If the input is a text they are
the lines of this text, since a byte that is a newline is one only where the text
has a newline. A text is read line by line, so what is shown for all texts is shown
by adding a line in front (`line_induction`). -/
namespace LoxFrontEnd

namespace Text

theorem toUtf8_ofList (cs : List Char) :
    toUtf8 (String.ofList cs) = cs.flatMap String.utf8EncodeChar := by
  simp [toUtf8, List.utf8Encode]

/-- If a character has several bytes they are all above 127. -/
theorem newline_notMem_utf8EncodeChar {c : Char} (h : c ≠ '\n') :
    10 ∉ String.utf8EncodeChar c := by
  have hcode : c.val.toNat ≠ 10 := fun hcode => h (Char.toNat_inj.1 hcode)
  intro hmem
  simp only [String.utf8EncodeChar] at hmem
  split at hmem
  · simp only [List.mem_singleton, ← UInt8.toNat_inj, UInt8.toNat_ofNat'] at hmem
    have hten : (10 : UInt8).toNat = 10 := rfl
    omega
  split at hmem
  · simp [← UInt8.toNat_inj] at hmem
    omega
  split at hmem
  · simp [← UInt8.toNat_inj] at hmem
    omega
  · simp [← UInt8.toNat_inj] at hmem
    omega

theorem newline_notMem_toUtf8 {cs : List Char} (h : '\n' ∉ cs) :
    10 ∉ toUtf8 (String.ofList cs) := by
  rw [toUtf8_ofList, List.mem_flatMap]
  intro hex
  obtain ⟨c, hc, hmem⟩ := hex
  have hne : c ≠ '\n' := ne_of_mem_of_not_mem hc h
  exact newline_notMem_utf8EncodeChar hne hmem

end Text

namespace Session

theorem lines_of_notMem {bytes : List UInt8} (hne : bytes ≠ []) (h : 10 ∉ bytes) :
    lines bytes = [bytes] := by
  induction bytes with
  | nil => exact absurd rfl hne
  | cons b bytes ih =>
    obtain ⟨hb, hbytes⟩ := List.ne_and_not_mem_of_not_mem_cons h
    rw [lines, if_neg (Ne.symm hb)]
    by_cases hnil : bytes = []
    · rw [hnil, lines]
    · rw [ih hnil hbytes]

theorem lines_newline {bytes : List UInt8} (h : 10 ∉ bytes) (rest : List UInt8) :
    lines (bytes ++ 10 :: rest) = (bytes ++ [10]) :: lines rest := by
  induction bytes with
  | nil => rfl
  | cons b bytes ih =>
    obtain ⟨hb, hbytes⟩ := List.ne_and_not_mem_of_not_mem_cons h
    rw [List.cons_append, lines, if_neg (Ne.symm hb), ih hbytes]
    rfl

/-- The bytes of a text. -/
def bytesOf (cs : List Char) : List UInt8 := Text.toUtf8 (String.ofList cs)

theorem bytesOf_toList (source : String) : bytesOf source.toList = Text.toUtf8 source := by
  rw [bytesOf, String.ofList_toList]

theorem bytesOf_append (a b : List Char) : bytesOf (a ++ b) = bytesOf a ++ bytesOf b := by
  rw [bytesOf, bytesOf, bytesOf, Text.toUtf8_ofList, Text.toUtf8_ofList, Text.toUtf8_ofList,
    List.flatMap_append]

/-- A text without a newline is one line. -/
theorem lines_bytesOf {cs : List Char} (hne : cs ≠ []) (h : '\n' ∉ cs) :
    lines (bytesOf cs) = [bytesOf cs] := by
  refine lines_of_notMem ?_ (Text.newline_notMem_toUtf8 h)
  obtain ⟨c, cs, rfl⟩ := List.exists_cons_of_ne_nil hne
  rw [bytesOf, Text.toUtf8_ofList, List.flatMap_cons]
  exact List.append_ne_nil_of_left_ne_nil String.utf8EncodeChar_ne_nil _

/-- The first line of a text ends with its first newline. -/
theorem lines_bytesOf_newline {a : List Char} (h : '\n' ∉ a) (b : List Char) :
    lines (bytesOf (a ++ '\n' :: b)) = bytesOf (a ++ ['\n']) :: lines (bytesOf b) := by
  have hnewline : bytesOf ['\n'] = [10] := by
    rw [bytesOf, Text.toUtf8_ofList]
    rfl
  rw [List.append_cons, bytesOf_append, bytesOf_append a, hnewline, List.append_assoc]
  exact lines_newline (Text.newline_notMem_toUtf8 h) (bytesOf b)

/-- A text is empty, or a line without a newline, or a line with a text after it. -/
theorem line_induction {motive : List Char → Prop} (nil : motive [])
    (last : ∀ a, a ≠ [] → '\n' ∉ a → motive a)
    (line : ∀ a b, '\n' ∉ a → motive b → motive (a ++ '\n' :: b)) (cs : List Char) :
    motive cs := by
  induction hn : cs.length using Nat.strongRecOn generalizing cs with
  | ind n ih =>
    subst hn
    by_cases h : '\n' ∈ cs
    · obtain ⟨a, b, rfl, ha⟩ := List.eq_append_cons_of_mem h
      have hlt : b.length < (a ++ '\n' :: b).length := by
        rw [List.length_append, List.length_cons]
        omega
      exact line a b ha (ih b.length hlt b rfl)
    · by_cases hne : cs = []
      · exact hne ▸ nil
      · exact last cs hne h

/-! ### The end of a line -/

theorem splitEnd_of_notMem {line : List Char} (h : '\n' ∉ line) : splitEnd line = (line, []) := by
  unfold splitEnd
  split
  · next hline => exact absurd (by rw [← List.mem_reverse, hline]; simp) h
  · next hline => exact absurd (by rw [← List.mem_reverse, hline]; simp) h
  · rfl

theorem splitEnd_newline (a : List Char) :
    ∃ body lineEnd, splitEnd (a ++ ['\n']) = (body, lineEnd) ∧ IsLineEnd lineEnd ∧
      body ++ lineEnd = a ++ ['\n'] := by
  have hend : IsLineEnd (splitEnd (a ++ ['\n'])).2 := by
    unfold splitEnd
    split
    · exact .inr rfl
    · exact .inl rfl
    · next hreturn hnewline => exact absurd (by simp) (hnewline a.reverse)
  exact ⟨_, _, rfl, hend, splitEnd_append (a ++ ['\n'])⟩

/-- A newline alone ends a line that does not end in a carriage return. -/
theorem splitEnd_newline_of_notMem {a : List Char} (h : '\r' ∉ a) :
    splitEnd (a ++ ['\n']) = (a, ['\n']) := by
  obtain ⟨body, lineEnd, hsplit, rfl | rfl, happ⟩ := splitEnd_newline a
  · rw [hsplit, List.append_cancel_right happ]
  · rw [List.append_cons body] at happ
    have hreturn : body ++ ['\r'] = a := List.append_cancel_right happ
    exact absurd (by simp [← hreturn]) h

end Session

end LoxFrontEnd
