import LoxFrontEnd.Number.Nearest
import LoxFrontEnd.Number.Text
import LoxFrontEnd.Proofs.Lexical.Item
import LoxFrontEnd.Proofs.Number.Interval

/-! Reading a written number back.

A number is written as a numeral, perhaps with an exponent of ten behind it, and the decimal
that the text spells has the value of the decimal that was written (`value_read_write`). That
value lies in the interval of one number only, so numbers without a sign are written
differently (`toText_inj`). -/
namespace LoxFrontEnd

namespace Decimal

/-! ### Reading -/

/-- The decimal that a numeral spells. -/
def ofNumeral (cs : List Char) : Decimal :=
  let whole := cs.takeWhile Char.isDigit
  let fraction := (cs.dropWhile Char.isDigit).drop 1
  ⟨digitsValue (whole ++ fraction), -fraction.length⟩

def exponentOf : List Char → Int
  | '-' :: ds => -digitsValue ds
  | ds => digitsValue ds

/-- The decimal that a text spells: a numeral, and perhaps an exponent of ten. -/
def read (cs : List Char) : Decimal :=
  let numeral := ofNumeral (cs.takeWhile (· != 'e'))
  ⟨numeral.digits, numeral.exponent + exponentOf ((cs.dropWhile (· != 'e')).drop 1)⟩

theorem ofNumeral_integer {ds : List Char} (h : Digits ds) : ofNumeral ds = ⟨digitsValue ds, 0⟩ := by
  simp [ofNumeral, h.takeWhile_eq, h.dropWhile_eq]

theorem ofNumeral_decimal {ds es : List Char} (h : Digits ds) :
    ofNumeral (ds ++ '.' :: es) = ⟨digitsValue (ds ++ es), -es.length⟩ := by
  simp [ofNumeral, h.takeWhile_point, h.dropWhile_point]

theorem exponentOf_digits {ds : List Char} (h : Digits ds) : exponentOf ds = digitsValue ds := by
  obtain ⟨d, rest, rfl, hd⟩ := h.eq_cons
  rw [exponentOf]
  intro ds hsign
  cases hsign
  cases hd

theorem exists_cons_of_numeral {cs : List Char} (h : Item (some .number) cs) :
    ∃ c rest, cs = c :: rest ∧ c.isDigit = true := by
  cases h with
  | integer hds => exact hds.eq_cons
  | decimal hds hes =>
    obtain ⟨d, rest, rfl, hd⟩ := hds.eq_cons
    exact ⟨d, _, rfl, hd⟩

theorem mem_numeral {cs : List Char} (h : Item (some .number) cs) {c : Char} (hc : c ∈ cs) :
    c.isDigit = true ∨ c = '.' := by
  cases h with
  | integer hds => exact .inl (hds.isDigit c hc)
  | decimal hds hes =>
    rcases List.mem_append.1 hc with hc | hc
    · exact .inl (hds.isDigit c hc)
    · rcases List.mem_cons.1 hc with hc | hc
      · exact .inr hc
      · exact .inl (hes.isDigit c hc)

theorem mark_notMem {cs : List Char} (h : Item (some .number) cs) : 'e' ∉ cs := by
  intro he
  rcases mem_numeral h he with he | he
  · exact absurd he (by decide)
  · exact absurd he (by decide)

theorem read_numeral {cs : List Char} (h : Item (some .number) cs) : read cs = ofNumeral cs := by
  have hcs : ∀ x ∈ cs, (x != 'e') = true :=
    fun x hx => bne_iff_ne.2 (ne_of_mem_of_not_mem hx (mark_notMem h))
  simp [read, List.takeWhile_eq_self_iff.2 hcs, List.dropWhile_eq_nil_iff.2 hcs, exponentOf,
    digitsValue]

theorem read_exponent {cs : List Char} (h : Item (some .number) cs) (es : List Char) :
    read (cs ++ 'e' :: es) =
      ⟨(ofNumeral cs).digits, (ofNumeral cs).exponent + exponentOf es⟩ := by
  have hcs : ∀ x ∈ cs, (x != 'e') = true :=
    fun x hx => bne_iff_ne.2 (ne_of_mem_of_not_mem hx (mark_notMem h))
  have hd : (cs ++ 'e' :: es).dropWhile (· != 'e') = 'e' :: es := by
    rw [List.dropWhile_append_of_pos hcs, List.dropWhile_cons_of_neg (by decide)]
  rw [read, Segment.takeWhile_ne_append (mark_notMem h), hd]
  rfl

/-! ### Digits -/

theorem digitsValue_eq (cs : List Char) : digitsValue cs = Nat.ofDigitChars 10 cs 0 :=
  Nat.ofDigitChars_eq_foldl.symm

theorem digits_toDigits (n : Nat) : Digits (Nat.toDigits 10 n) :=
  ⟨Nat.toDigits_ne_nil, fun _ hc => Nat.isDigit_of_mem_toDigits (by decide) (by decide) hc⟩

theorem isDigit_zeros (n : Nat) : ∀ c ∈ zeros n, c.isDigit = true := by
  intro c hc
  rw [List.eq_of_mem_replicate hc]
  rfl

theorem digitsValue_toDigits (n : Nat) : digitsValue (Nat.toDigits 10 n) = n := by
  rw [digitsValue_eq, Nat.ofDigitChars_ten_toDigits]

theorem digitsValue_zeros_append (n k : Nat) :
    digitsValue (zeros k ++ Nat.toDigits 10 n) = n := by
  rw [digitsValue_eq, Nat.ofDigitChars_append, zeros, Nat.ofDigitChars_replicate_zero,
    Nat.mul_zero, Nat.ofDigitChars_ten_toDigits]

theorem digitsValue_append_zeros (n k : Nat) :
    digitsValue (Nat.toDigits 10 n ++ zeros k) = n * 10 ^ k := by
  rw [digitsValue_eq, Nat.ofDigitChars_append, Nat.ofDigitChars_ten_toDigits, zeros,
    Nat.ofDigitChars_replicate_zero, Nat.mul_comm]

theorem value_mul_pow (digits k : Nat) (exponent : Int) :
    value ⟨digits * 10 ^ k, exponent - k⟩ = value ⟨digits, exponent⟩ := by
  have hpow : (10 : ℚ) ^ k * 10 ^ (exponent - k) = 10 ^ exponent := by
    rw [← zpow_natCast, ← zpow_add₀ (by norm_num), add_sub_cancel]
  rw [value, value, Nat.cast_mul, Nat.cast_pow, Nat.cast_ofNat, mul_assoc, hpow]

/-! ### Writing -/

/-- The text is a numeral that spells the value of the decimal. -/
structure SpelledBy (d : Decimal) (cs : List Char) : Prop where
  item : Item (some .number) cs
  value_eq : (ofNumeral cs).value = d.value

theorem SpelledBy.decimal {d : Decimal} {ds es : List Char} (hds : Digits ds) (hes : Digits es)
    (h : value ⟨digitsValue (ds ++ es), -es.length⟩ = d.value) : d.SpelledBy (ds ++ '.' :: es) :=
  ⟨.decimal hds hes, by rw [ofNumeral_decimal hds, h]⟩

theorem leading_eq (d : Decimal) :
    d.leading = (Nat.toDigits 10 d.digits).length - 1 + d.exponent := rfl

theorem digits_append {ds es : List Char} (hds : ∀ c ∈ ds, c.isDigit = true)
    (hes : ∀ c ∈ es, c.isDigit = true) (h : ds ++ es ≠ []) : Digits (ds ++ es) :=
  ⟨h, fun c hc => (List.mem_append.1 hc).elim (hds c) (hes c)⟩

section
variable (d : Decimal)

theorem spelledBy_whole (h : 0 ≤ d.exponent) :
    d.SpelledBy (Nat.toDigits 10 d.digits ++ zeros d.exponent.toNat ++ '.' :: zeros 1) := by
  have hdigits := digits_toDigits d.digits
  have hds : Digits (Nat.toDigits 10 d.digits ++ zeros d.exponent.toNat) :=
    digits_append hdigits.isDigit (isDigit_zeros _) (by simp [hdigits.ne_nil])
  have hes : Digits (zeros 1) := ⟨List.cons_ne_nil _ _, isDigit_zeros 1⟩
  have hzeros : zeros d.exponent.toNat ++ zeros 1 = zeros (d.exponent.toNat + 1) :=
    List.replicate_append_replicate
  have hexponent : -((zeros 1).length : Int) = d.exponent - (d.exponent.toNat + 1 : Nat) := by
    rw [zeros, List.length_replicate]
    omega
  refine SpelledBy.decimal hds hes ?_
  rw [List.append_assoc, hzeros, digitsValue_append_zeros, hexponent, value_mul_pow]

theorem spelledBy_split (hexponent : d.exponent < 0) (hleading : 0 ≤ d.leading) :
    d.SpelledBy ((Nat.toDigits 10 d.digits).take (d.leading.toNat + 1) ++
      '.' :: (Nat.toDigits 10 d.digits).drop (d.leading.toNat + 1)) := by
  have hdigits := digits_toDigits d.digits
  have hplaces := d.leading_eq
  have hds : Digits ((Nat.toDigits 10 d.digits).take (d.leading.toNat + 1)) :=
    ⟨by simp [hdigits.ne_nil], fun c hc => hdigits.isDigit c (List.mem_of_mem_take hc)⟩
  have hes : Digits ((Nat.toDigits 10 d.digits).drop (d.leading.toNat + 1)) :=
    ⟨by rw [ne_eq, List.drop_eq_nil_iff]; omega,
      fun c hc => hdigits.isDigit c (List.mem_of_mem_drop hc)⟩
  have hexponent : -(((Nat.toDigits 10 d.digits).drop (d.leading.toNat + 1)).length : Int) =
      d.exponent := by
    rw [List.length_drop]
    omega
  refine SpelledBy.decimal hds hes ?_
  rw [List.take_append_drop, digitsValue_toDigits, hexponent]

theorem spelledBy_fraction (h : d.leading < 0) :
    d.SpelledBy (['0'] ++ '.' :: (zeros (-d.leading - 1).toNat ++ Nat.toDigits 10 d.digits)) := by
  have hdigits := digits_toDigits d.digits
  have hplaces := d.leading_eq
  have hds : Digits ['0'] := ⟨List.cons_ne_nil _ _, isDigit_zeros 1⟩
  have hes : Digits (zeros (-d.leading - 1).toNat ++ Nat.toDigits 10 d.digits) :=
    digits_append (isDigit_zeros _) hdigits.isDigit (by simp [hdigits.ne_nil])
  have hzeros : ['0'] ++ (zeros (-d.leading - 1).toNat ++ Nat.toDigits 10 d.digits) =
      zeros ((-d.leading - 1).toNat + 1) ++ Nat.toDigits 10 d.digits := rfl
  have hexponent : -((zeros (-d.leading - 1).toNat ++ Nat.toDigits 10 d.digits).length : Int) =
      d.exponent := by
    rw [List.length_append, zeros, List.length_replicate]
    omega
  refine SpelledBy.decimal hds hes ?_
  rw [hzeros, digitsValue_zeros_append, hexponent]

theorem spelledBy_positional : d.SpelledBy d.positional := by
  simp only [positional]
  split
  · next hexponent => exact d.spelledBy_whole hexponent
  · next hexponent =>
    split <;> rw [List.append_assoc]
    · next hleading => exact d.spelledBy_split (by omega) hleading
    · next hleading => exact d.spelledBy_fraction (by omega)

/-- The digits of a decimal with a point behind the first spell it up to its leading
exponent. -/
theorem exists_mantissa : ∃ cs, Item (some .number) cs ∧
    d.scientific = cs ++ 'e' :: ((if d.leading < 0 then ['-'] else []) ++
      Nat.toDigits 10 d.leading.natAbs) ∧
    ofNumeral cs = ⟨d.digits, d.exponent - d.leading⟩ := by
  have hdigits := digits_toDigits d.digits
  have hvalue := digitsValue_toDigits d.digits
  have hplaces := d.leading_eq
  simp only [scientific]
  cases hcs : Nat.toDigits 10 d.digits with
  | nil => exact absurd hcs hdigits.ne_nil
  | cons first rest =>
    rw [hcs] at hdigits hvalue hplaces
    cases rest with
    | nil =>
      refine ⟨[first], .integer hdigits, rfl, ?_⟩
      rw [ofNumeral_integer hdigits, hvalue]
      congr
      simp only [List.length_cons, List.length_nil] at hplaces
      omega
    | cons next rest =>
      have hds : Digits [first] :=
        ⟨List.cons_ne_nil _ _, fun c hc => hdigits.isDigit c (by simp_all)⟩
      have hes : Digits (next :: rest) :=
        ⟨List.cons_ne_nil _ _, fun c hc => hdigits.isDigit c (List.mem_cons_of_mem _ hc)⟩
      refine ⟨[first] ++ '.' :: next :: rest, .decimal hds hes, by simp, ?_⟩
      rw [ofNumeral_decimal hds, List.singleton_append, hvalue]
      congr
      simp only [List.length_cons] at hplaces ⊢
      omega

end

theorem exponentOf_toDigits (e : Int) :
    exponentOf ((if e < 0 then ['-'] else []) ++ Nat.toDigits 10 e.natAbs) = e := by
  split
  · rw [List.singleton_append, exponentOf, digitsValue_toDigits]
    omega
  · rw [List.nil_append, exponentOf_digits (digits_toDigits _), digitsValue_toDigits]
    omega

/-- A written decimal is a numeral and perhaps an exponent, and reads back to the same value. -/
theorem exists_write (layout : Layout) (d : Decimal) : ∃ cs tail, Item (some .number) cs ∧
    (∀ c ∈ tail, c.isAlphanum = true ∨ c = '-') ∧ d.write layout = cs ++ tail ∧
    (read (d.write layout)).value = d.value := by
  rw [write]
  split
  · obtain ⟨hitem, hvalue⟩ := d.spelledBy_positional
    exact ⟨_, [], hitem, by simp, (List.append_nil _).symm, by rw [read_numeral hitem, hvalue]⟩
  · obtain ⟨cs, hitem, htext, hcs⟩ := d.exists_mantissa
    refine ⟨cs, _, hitem, ?_, htext, ?_⟩
    · intro c hc
      rcases List.mem_cons.1 hc with rfl | hc
      · exact .inl rfl
      · rcases List.mem_append.1 hc with hc | hc
        · split at hc
          · exact .inr (List.mem_singleton.1 hc)
          · cases hc
        · exact .inl ((digits_toDigits _).isAlphanum c hc)
    · rw [htext, read_exponent hitem, hcs, exponentOf_toDigits, sub_add_cancel]

end Decimal

namespace Number

/-! ### Numbers without a sign -/

/-- A number that a numeral denotes has no sign, and is not a NaN. -/
structure Unsigned (x : Number) : Prop where
  isNaN_eq : x.isNaN = false
  isNegative_eq : x.isNegative = false

theorem unsigned_ofNumeral (cs : List Char) : (ofNumeral cs).Unsigned :=
  ⟨isNaN_ofDecimal _ _, isNegative_ofDecimal _ _⟩

namespace Unsigned
variable {x y : Number}

theorem eq_of_magnitude (hx : x.Unsigned) (hy : y.Unsigned) (h : x.magnitude = y.magnitude) :
    x = y := by
  have hbits : ∀ {z : Number}, z.Unsigned → z.magnitude = z.bits.toNat := fun hz =>
    Nat.mod_eq_of_lt (Nat.not_le.1 (of_decide_eq_false hz.isNegative_eq))
  rw [hbits hx, hbits hy, UInt64.toNat_inj] at h
  cases x
  cases y
  exact congrArg Number.mk h

theorem toList_toText (h : x.Unsigned) : x.toText.toList =
    if x.isInfinite then ['i', 'n', 'f'] else x.shortest.write layout := by
  simp [toText, h.isNaN_eq, h.isNegative_eq]

theorem toText_infinite (h : x.Unsigned) (hx : x.isInfinite = true) :
    x.toText.toList = ['i', 'n', 'f'] := by
  rw [h.toList_toText, if_pos hx]

theorem toText_finite (h : x.Unsigned) (hx : x.isInfinite = false) :
    x.toText.toList = x.shortest.write layout := by
  rw [h.toList_toText, if_neg (by simp [hx])]

theorem mem_toText (h : x.Unsigned) {c : Char} (hc : c ∈ x.toText.toList) :
    c.isAlphanum = true ∨ c = '.' ∨ c = '-' := by
  cases hx : x.isInfinite with
  | true =>
    rw [h.toText_infinite hx, List.mem_cons, List.mem_cons, List.mem_singleton] at hc
    rcases hc with rfl | rfl | rfl <;> exact .inl rfl
  | false =>
    obtain ⟨cs, tail, hitem, htail, htext, -⟩ := x.shortest.exists_write layout
    rw [h.toText_finite hx, htext, List.mem_append] at hc
    rcases hc with hc | hc
    · exact (Decimal.mem_numeral hitem hc).imp isAlphanum_of_isDigit .inl
    · exact (htail c hc).imp_right .inr

theorem exists_digit (h : x.Unsigned) (hx : x.isInfinite = false) :
    ∃ d rest, x.toText.toList = d :: rest ∧ d.isDigit = true := by
  obtain ⟨cs, tail, hitem, -, htext, -⟩ := x.shortest.exists_write layout
  obtain ⟨d, rest, rfl, hd⟩ := Decimal.exists_cons_of_numeral hitem
  exact ⟨d, rest ++ tail, by rw [h.toText_finite hx, htext, List.cons_append], hd⟩

theorem isInfinite_of_toText (hx : x.Unsigned) (hy : y.Unsigned) (h : x.toText = y.toText)
    (hinfinite : x.isInfinite = true) : y.isInfinite = true := by
  by_contra hfinite
  obtain ⟨d, rest, htext, hd⟩ := hy.exists_digit (Bool.not_eq_true _ ▸ hfinite)
  rw [← h, hx.toText_infinite hinfinite] at htext
  cases htext
  cases hd

/-- Numbers without a sign that are written alike are the same. -/
theorem toText_inj (hx : x.Unsigned) (hy : y.Unsigned) : x.toText = y.toText ↔ x = y := by
  refine ⟨fun h => hx.eq_of_magnitude hy ?_, fun h => by rw [h]⟩
  cases hinfinite : x.isInfinite with
  | true =>
    have hmagnitude : y.magnitude = infiniteMagnitude :=
      beq_iff_eq.1 (hx.isInfinite_of_toText hy h hinfinite)
    rw [beq_iff_eq.1 hinfinite, hmagnitude]
  | false =>
    have hfinite : y.isInfinite = false := by
      by_contra hy'
      have := hy.isInfinite_of_toText hx h.symm (Bool.not_eq_false _ ▸ hy')
      simp [hinfinite] at this
    have hwritten : x.shortest.write layout = y.shortest.write layout := by
      rw [← hx.toText_finite hinfinite, ← hy.toText_finite hfinite, h]
    obtain ⟨-, -, -, -, -, hreadx⟩ := x.shortest.exists_write layout
    obtain ⟨-, -, -, -, -, hready⟩ := y.shortest.exists_write layout
    have hvalue : x.shortest.value = y.shortest.value := by rw [← hreadx, ← hready, hwritten]
    have hnear : x.Near y.shortest.value := hvalue ▸ x.near_shortest
    exact hnear.magnitude_eq y.near_shortest

end Unsigned

end Number

end LoxFrontEnd
