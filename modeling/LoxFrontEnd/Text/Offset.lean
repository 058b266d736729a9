/-! Byte offsets into a text.

A text is a list of characters, and a position in it is counted in the bytes of
its UTF-8 form. Some offsets fall inside a character, so cutting a text at an
offset can fail. A cut succeeds exactly at the width of a first part
(`splitAt?_eq_some_iff`). -/
namespace LoxFrontEnd.Text

/-- The number of bytes of a text in UTF-8. -/
def width : List Char → Nat
  | [] => 0
  | c :: cs => c.utf8Size + width cs

@[simp] theorem width_nil : width [] = 0 := rfl

@[simp] theorem width_cons (c : Char) (cs : List Char) :
    width (c :: cs) = c.utf8Size + width cs := rfl

@[simp] theorem width_append (a b : List Char) : width (a ++ b) = width a + width b := by
  induction a with
  | nil => simp
  | cons c a ih => simp [ih, Nat.add_assoc]

theorem width_eq_zero {cs : List Char} : width cs = 0 ↔ cs = [] := by
  cases cs with
  | nil => simp
  | cons c cs => simp [Nat.ne_of_gt (Char.utf8Size_pos c)]

/-- Of two beginnings of a text the narrower one is a beginning of the other. -/
theorem prefix_of_width_le {cs a b : List Char} (ha : a <+: cs) (hb : b <+: cs)
    (h : width a ≤ width b) : a <+: b := by
  rcases List.prefix_or_prefix_of_prefix ha hb with hab | ⟨more, rfl⟩
  · exact hab
  · rw [width_append] at h
    obtain rfl : more = [] := width_eq_zero.1 (by omega)
    simp

/-- The characters of a text with the offsets at which they start, the first one at the given
offset. -/
def indicesFrom (offset : Nat) : List Char → List (Nat × Char)
  | [] => []
  | c :: cs => (offset, c) :: indicesFrom (offset + c.utf8Size) cs

theorem indicesFrom_append (offset : Nat) (a b : List Char) :
    indicesFrom offset (a ++ b) = indicesFrom offset a ++ indicesFrom (offset + width a) b := by
  induction a generalizing offset with
  | nil => rfl
  | cons c a ih => simp [indicesFrom, ih, Nat.add_assoc]

/-- The parts before and after an offset, if it lies between two characters. -/
def splitAt? : Nat → List Char → Option (List Char × List Char)
  | 0, cs => some ([], cs)
  | _ + 1, [] => none
  | n + 1, c :: cs =>
    if c.utf8Size ≤ n + 1 then
      (splitAt? (n + 1 - c.utf8Size) cs).map fun (a, b) => (c :: a, b)
    else none

theorem splitAt?_width_append (a b : List Char) : splitAt? (width a) (a ++ b) = some (a, b) := by
  induction a with
  | nil => simp [splitAt?]
  | cons c a ih =>
    have hc := Char.utf8Size_pos c
    obtain ⟨n, hn⟩ : ∃ n, width (c :: a) = n + 1 := ⟨width (c :: a) - 1, by simp; omega⟩
    have hle : c.utf8Size ≤ n + 1 := by rw [← hn]; simp
    have hsub : n + 1 - c.utf8Size = width a := by rw [← hn]; simp
    rw [hn, List.cons_append, splitAt?, if_pos hle, hsub, ih]
    rfl

theorem eq_append_of_splitAt? {n : Nat} {cs a b : List Char}
    (h : splitAt? n cs = some (a, b)) : cs = a ++ b ∧ n = width a := by
  induction cs generalizing n a b with
  | nil =>
    cases n with
    | zero => simp_all [splitAt?]
    | succ n => simp [splitAt?] at h
  | cons c cs ih =>
    cases n with
    | zero => simp_all [splitAt?]
    | succ n =>
      rw [splitAt?] at h
      split at h
      · obtain ⟨⟨a', b'⟩, hp, he⟩ := Option.map_eq_some_iff.1 h
        obtain ⟨rfl, hn⟩ := ih hp
        simp only [Prod.mk.injEq] at he
        obtain ⟨rfl, rfl⟩ := he
        refine ⟨rfl, ?_⟩
        simp only [width_cons]
        omega
      · simp at h

/-- A text is cut at the width of its first part and nowhere else. -/
theorem splitAt?_eq_some_iff {n : Nat} {cs a b : List Char} :
    splitAt? n cs = some (a, b) ↔ cs = a ++ b ∧ n = width a :=
  ⟨eq_append_of_splitAt?, fun ⟨h, hn⟩ => by rw [h, hn, splitAt?_width_append]⟩

/-- Two offsets that bound no part of a text: one of them is past its end or inside a
character, or they are in the wrong order. -/
structure BadRange where
  start : Nat
  stop : Nat
deriving DecidableEq, Repr

/-- The text before an offset, between two offsets, and after them. -/
def cut (start stop : Nat) (cs : List Char) :
    Except BadRange (List Char × List Char × List Char) :=
  if stop < start then .error ⟨start, stop⟩
  else match splitAt? start cs with
    | none => .error ⟨start, stop⟩
    | some (before, rest) => match splitAt? (stop - start) rest with
      | none => .error ⟨start, stop⟩
      | some (part, after) => .ok (before, part, after)

theorem cut_width (a b c : List Char) :
    cut (width a) (width (a ++ b)) (a ++ b ++ c) = .ok (a, b, c) := by
  simp [cut, splitAt?_width_append]

/-- The text between two offsets. -/
def slice (start stop : Nat) (cs : List Char) : Except BadRange (List Char) :=
  (cut start stop cs).map fun (_, part, _) => part

theorem slice_eq_ok_iff {start stop : Nat} {cs part : List Char} :
    slice start stop cs = .ok part ↔ ∃ before after, cs = before ++ (part ++ after) ∧
      start = width before ∧ stop = width (before ++ part) := by
  constructor
  · intro h
    unfold slice cut at h
    by_cases hlt : stop < start
    · rw [if_pos hlt] at h
      cases h
    · rw [if_neg hlt] at h
      cases hbefore : splitAt? start cs with
      | none => simp only [hbefore] at h; cases h
      | some parts =>
        obtain ⟨before, rest⟩ := parts
        cases hpart : splitAt? (stop - start) rest with
        | none => simp only [hbefore, hpart] at h; cases h
        | some parts =>
          obtain ⟨part', after⟩ := parts
          obtain rfl : part' = part := by simpa [hbefore, hpart, Except.map] using h
          obtain ⟨rfl, rfl⟩ := splitAt?_eq_some_iff.1 hbefore
          obtain ⟨rfl, hwidth⟩ := splitAt?_eq_some_iff.1 hpart
          refine ⟨before, after, rfl, rfl, ?_⟩
          rw [width_append]
          omega
  · intro hex
    obtain ⟨before, after, rfl, rfl, rfl⟩ := hex
    rw [slice, ← List.append_assoc, cut_width]
    rfl

/-- The offset lies between two characters of the text, or at one of its ends. -/
def IsBoundary (cs : List Char) (offset : Nat) : Prop :=
  ∃ before, before <+: cs ∧ offset = width before

/-- There is a text between any two boundaries in their order. -/
theorem exists_slice {start stop : Nat} {cs : List Char} (hstart : IsBoundary cs start)
    (hstop : IsBoundary cs stop) (h : start ≤ stop) : ∃ part, slice start stop cs = .ok part := by
  obtain ⟨a, ha, rfl⟩ := hstart
  obtain ⟨b, hb, rfl⟩ := hstop
  obtain ⟨part, rfl⟩ := prefix_of_width_le ha hb h
  obtain ⟨after, rfl⟩ := hb
  exact ⟨part, slice_eq_ok_iff.2 ⟨a, after, List.append_assoc a part after, rfl, rfl⟩⟩

end LoxFrontEnd.Text
