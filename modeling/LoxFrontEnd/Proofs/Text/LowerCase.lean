import LoxFrontEnd.Text.LowerCase
import Mathlib.Data.List.Basic

/-! Lower case and ASCII.

The lower-case form of a text in ASCII is in ASCII, letter by letter. The other way round
there is one exception in all of Unicode, the Kelvin sign, which is a small k in lower case
(`lowered_of_not_ascii`): a text without that letter is the lower-case form of texts in
ASCII only (`lowerCase_eq_iff`). -/
namespace LoxFrontEnd.Text

def IsAscii (c : Char) : Prop := c.toNat < 0x80

instance (c : Char) : Decidable (IsAscii c) := inferInstanceAs (Decidable (_ < _))

/-- The letters of ASCII change places among themselves. -/
theorem isAscii_toLower {c : Char} : IsAscii c.toLower ↔ IsAscii c := by
  rw [IsAscii, IsAscii]
  delta Char.toLower
  split
  · next h =>
    have hlast : c.toNat ≤ 90 := UInt32.le_iff_toNat_le.1 h.2
    have hcode : (c.val + ('a'.val - 'A'.val)).toNat = c.toNat + 32 := by
      rw [UInt32.toNat_add]
      show (c.toNat + 32) % 2 ^ 32 = c.toNat + 32
      omega
    show (c.val + ('a'.val - 'A'.val)).toNat < 0x80 ↔ _
    omega
  · exact Iff.rfl

theorem lowered_ascii {c : Char} (h : IsAscii c) : lowered c = [c.toLower] := if_pos h

/-- In the table only the Kelvin sign has a form in ASCII, and every form is a character. -/
theorem caseRanges_bounds : ∀ r ∈ caseRanges, r.first = 0x212A ∧ r.last = 0x212A ∨
    0x80 ≤ r.first + r.offset ∧ (r.last + r.offset < 0xD800 ∨
      0xE000 ≤ r.first + r.offset ∧ r.last + r.offset < 0x110000) := by
  decide +kernel

theorem CaseRange.bounds_of_holds {r : CaseRange} {code : Nat} (h : r.holds code = true) :
    r.first ≤ code ∧ code ≤ r.last := by
  rw [holds, Bool.and_eq_true, Bool.and_eq_true, decide_eq_true_iff, decide_eq_true_iff] at h
  exact h.1

theorem CaseRange.lower_of_mem {r : CaseRange} (hr : r ∈ caseRanges) {c : Char}
    (h : r.holds c.toNat = true) : c = '\u212A' ∨ ¬ IsAscii (r.lower c) := by
  obtain ⟨hfirst, hlast⟩ := bounds_of_holds h
  rcases caseRanges_bounds r hr with hkelvin | ⟨hlow, hhigh⟩
  · left
    have hcode : c.toNat = 0x212A := by omega
    rw [← Char.ofNat_toNat c, hcode]
  · right
    have hvalid : (c.toNat + r.offset).toNat.isValidChar := by
      rw [Nat.isValidChar]
      omega
    rw [IsAscii, lower, Char.ofNat, dif_pos hvalid]
    show ¬ (c.toNat + r.offset).toNat < 0x80
    omega

/-- Outside ASCII, only the Kelvin sign has a lower-case form that lies in ASCII. -/
theorem lowered_of_not_ascii {c : Char} (h : ¬ IsAscii c) :
    lowered c = ['k'] ∨ ∃ x ∈ lowered c, ¬ IsAscii x := by
  have hcode : ¬ c.toNat < 0x80 := h
  rw [lowered, if_neg hcode]
  by_cases hdotted : c = '\u0130'
  · rw [if_pos hdotted]
    exact .inr ⟨'\u0307', by simp, by decide⟩
  · rw [if_neg hdotted]
    cases hfind : caseRanges.find? (·.holds c.toNat) with
    | none => exact .inr ⟨c, List.mem_singleton.2 rfl, h⟩
    | some r =>
      have hr := List.mem_of_find?_eq_some hfind
      have hholds := List.find?_some hfind
      rcases r.lower_of_mem hr hholds with rfl | hlower
      · have hkelvin : (caseRanges.find? (·.holds '\u212A'.toNat)).map (·.lower '\u212A') =
            some 'k' := by decide +kernel
        rw [hfind] at hkelvin
        exact .inl (congrArg (fun x => [x]) (Option.some.inj hkelvin))
      · exact .inr ⟨_, List.mem_singleton.2 rfl, hlower⟩

theorem lowerCase_ascii {cs : List Char} (h : ∀ c ∈ cs, IsAscii c) :
    lowerCase cs = cs.map Char.toLower := by
  induction cs with
  | nil => rfl
  | cons c cs ih =>
    obtain ⟨hc, hcs⟩ := List.forall_mem_cons.1 h
    rw [lowerCase, List.flatMap_cons, lowered_ascii hc, ← lowerCase, ih hcs]
    rfl

/-- A text in ASCII without a k is the lower-case form of texts in ASCII only. -/
theorem isAscii_of_lowerCase {cs : List Char} (h : ∀ x ∈ lowerCase cs, IsAscii x ∧ x ≠ 'k') :
    ∀ c ∈ cs, IsAscii c := by
  intro c hc
  by_contra hnot
  have hmem : ∀ x ∈ lowered c, x ∈ lowerCase cs := fun x hx => List.mem_flatMap.2 ⟨c, hc, hx⟩
  rcases lowered_of_not_ascii hnot with hk | ⟨x, hx, hxnot⟩
  · exact (h 'k' (hmem 'k' (by rw [hk]; exact List.mem_singleton.2 rfl))).2 rfl
  · exact hxnot (h x (hmem x hx)).1

/-- Such a text is the lower-case form of the same texts in Unicode and in ASCII. -/
theorem lowerCase_eq_iff {cs target : List Char} (h : ∀ x ∈ target, IsAscii x ∧ x ≠ 'k') :
    lowerCase cs = target ↔ cs.map Char.toLower = target := by
  constructor
  · rintro rfl
    exact (lowerCase_ascii (isAscii_of_lowerCase h)).symm
  · rintro rfl
    refine lowerCase_ascii fun c hc => isAscii_toLower.1 (h _ ?_).1
    exact List.mem_map_of_mem hc

end LoxFrontEnd.Text
