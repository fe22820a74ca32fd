import PolicyDesk.Proofs.Double.Rounding

/-!
# Arithmetic from zero on

For doubles from zero on, sums, products, quotients and differences are the doubles nearest to the
exact ones (`place_kept_add`, `place_kept_mul`, `place_kept_div`, `place_kept_sub`). The values are
exact rational numbers (`IsValue`).
-/

namespace PolicyDesk.Double

open Float.Model (UnpackedFloat totalExponent)
open Float.Model.UnpackedFloat (Sign Accuracy ExtendedMantissa decreaseExponent
  accuracyOfFraction roundWithAccuracy)
open Float.Model.Format (binary64)

/-! ## Values -/

/-- A double from zero on, without infinity, and its value. The bits of the two zeros differ, but
their value does not. -/
inductive IsValue : UnpackedFloat → Rat → Prop
  | zero (s : Sign) : IsValue (.zero s) 0
  | finite (m : Nat) (e : Int) (h : 0 < m) : IsValue (.finite .positive m e h) (m * 2 ^ e)

variable {u w : UnpackedFloat} {p q : Rat} {m n : Nat} {d e : Int}

theorem IsValue.nonneg (h : IsValue u p) : 0 ≤ p := by
  cases h with
  | zero s => exact le_rfl
  | finite m e hm => exact mul_nonneg (Nat.cast_nonneg m) (zpow_pos two_pos e).le

theorem IsValue.place_eq (h : IsValue u p) (hu : Fitting u) : place u = some (rounded p) := by
  cases h with
  | zero s =>
    rw [rounded_zero]
    rfl
  | finite m e hm =>
    rw [Fits.rounded_eq hu]
    rfl

theorem IsValue.rounded_lt_top (h : IsValue u p) (hu : Fitting u) : rounded p < top := by
  cases h with
  | zero s =>
    rw [rounded_zero]
    decide
  | finite m e hm =>
    rw [Fits.rounded_eq hu]
    exact Fits.steps_lt_top hu

/-- Writing it to bits and reading it again changes nothing. -/
theorem IsValue.kept_eq (h : IsValue u p) (hu : Fitting u) : kept u = u := by
  cases h with
  | zero s => cases s <;> rfl
  | finite m e hm => exact kept_finite hu _

theorem place_kept_zero (s : Sign) : place (kept (.zero s)) = some 0 := by cases s <;> rfl

/-- From zero on a double has a value or is infinite. -/
theorem isValue_or_infinity {a : Int} (hu : Fitting u) (h : place u = some a) (ha : 0 ≤ a) :
    (∃ p, IsValue u p) ∨ u = .infinity .positive := by
  cases u with
  | notANumber => cases h
  | zero s => exact .inl ⟨0, .zero s⟩
  | finite s m e hm =>
    cases s with
    | positive => exact .inl ⟨_, .finite m e hm⟩
    | negative =>
      obtain rfl : -steps m e = a := Option.some.inj h
      have := hu.steps_pos
      omega
  | infinity s =>
    cases s with
    | positive => exact .inr rfl
    | negative =>
      obtain rfl : -top = a := Option.some.inj h
      exact absurd ha (by decide)

/-- A place farther from zero is a greater value. -/
theorem IsValue.le_of_place {a b : Int} (hp : IsValue u p) (hq : IsValue w q) (hu : Fitting u)
    (hw : Fitting w) (ha : place u = some a) (hb : place w = some b) (hle : a ≤ b) : p ≤ q := by
  cases hp with
  | zero s => exact hq.nonneg
  | finite m d hm =>
    obtain rfl : steps m d = a := Option.some.inj ha
    cases hq with
    | zero s =>
      obtain rfl : 0 = b := Option.some.inj hb
      exact absurd (Fits.steps_pos hu) hle.not_gt
    | finite n e hn =>
      obtain rfl : steps n e = b := Option.some.inj hb
      exact Fits.value_le hu hw hle

/-! ## Sums and differences -/

/-- With a smaller exponent the mantissa is longer. So its value is the same. -/
theorem decreaseExponent_value (m : Nat) (d e : Int) :
    ((decreaseExponent m e d).1 : Rat) * 2 ^ (decreaseExponent m e d).2 = m * 2 ^ e := by
  show ((m <<< (e - d).toNat : Nat) : Rat) * 2 ^ (e - ((e - d).toNat : Int)) = _
  rw [Nat.shiftLeft_eq, Nat.cast_mul, Nat.cast_pow, Nat.cast_ofNat, ← zpow_natCast, mul_assoc,
    ← zpow_add₀ two_ne_zero, add_sub_cancel]

theorem decreaseExponent_exponent_le (m : Nat) (d e : Int) : (decreaseExponent m e d).2 ≤ d := by
  show e - ((e - d).toNat : Int) ≤ d
  omega

private theorem decreaseExponent_exponent (m : Nat) (h : d ≤ e) :
    (decreaseExponent m e d).2 = d := by
  show e - ((e - d).toNat : Int) = d
  omega

theorem decreaseExponent_mantissa (m : Nat) (h : d ≤ e) :
    ((decreaseExponent m e d).1 : Rat) * 2 ^ d = m * 2 ^ e := by
  have hvalue := decreaseExponent_value m d e
  rwa [decreaseExponent_exponent m h] at hvalue

theorem decreaseExponent_pos (hm : 0 < m) (d e : Int) : 0 < (decreaseExponent m e d).1 := by
  show 0 < m <<< (e - d).toNat
  rw [Nat.shiftLeft_eq]
  positivity

private theorem targetExponent_natCast (hm : 0 < m) (e : Int) :
    binary64.targetExponent (totalExponent m e) = spacing (m * 2 ^ e) := by
  rw [targetExponent_eq, totalExponent, spacing, log_mul_zpow (Nat.cast_pos.mpr hm),
    Int.log_natCast, Nat.log2_eq_log_two]
  omega

private theorem place_kept_exact (hm : 0 < m) (he : e ≤ spacing (m * 2 ^ e)) :
    place (kept (roundWithAccuracy binary64 .positive m e .exact)) =
      some (rounded (m * 2 ^ e)) :=
  place_kept_roundWithAccuracy (extended_natCast m).symm (Nat.cast_pos.mpr hm) he

theorem place_kept_round (hm : 0 < m) (e : Int) :
    place (kept (UnpackedFloat.round binary64 .positive m e)) = some (rounded (m * 2 ^ e)) := by
  have hvalue := decreaseExponent_value m (spacing (m * 2 ^ e)) e
  have hpos := decreaseExponent_pos hm (spacing (m * 2 ^ e)) e
  have hle := decreaseExponent_exponent_le m (spacing (m * 2 ^ e)) e
  unfold UnpackedFloat.round
  rw [targetExponent_natCast hm]
  dsimp only
  generalize decreaseExponent m e (spacing (m * 2 ^ e)) = longer at *
  rw [← hvalue] at hle ⊢
  exact place_kept_exact hpos hle

theorem place_kept_normalize (m : Nat) (e : Int) (s : Sign) :
    place (kept (UnpackedFloat.normalize binary64 m e s)) = some (rounded (m * 2 ^ e)) := by
  unfold UnpackedFloat.normalize
  obtain rfl | hm := Nat.eq_zero_or_pos m
  · rw [Nat.cast_zero, Nat.cast_zero, zero_mul, rounded_zero]
    exact place_kept_zero s
  · rw [Int.compare_eq_gt.mpr (by omega)]
    exact place_kept_round hm e

/-- **Sum.** The double nearest to the exact sum. -/
theorem place_kept_add (hp : IsValue u p) (hq : IsValue w q) (hu : Fitting u) (hw : Fitting w) :
    place (kept (UnpackedFloat.add binary64 u w)) = some (rounded (p + q)) := by
  cases hp with
  | zero s =>
    rw [zero_add]
    cases hq with
    | zero t =>
      rw [rounded_zero]
      cases s <;> cases t <;> rfl
    | finite n e hn =>
      -- Both mantissas are brought to the smaller exponent, where they add up exactly.
      have hvalue := IsValue.finite n e hn
      show place (kept (.finite .positive n e hn)) = _
      rw [hvalue.kept_eq hw, hvalue.place_eq hw]
  | finite m d hm =>
    cases hq with
    | zero t =>
      have hvalue := IsValue.finite m d hm
      show place (kept (.finite .positive m d hm)) = _
      rw [hvalue.kept_eq hu, hvalue.place_eq hu, add_zero]
    | finite n e hn =>
      have hvalue :
          ((decreaseExponent m d (min d e)).1 + (decreaseExponent n e (min d e)).1 : Nat) *
            (2 : Rat) ^ (min d e) = m * 2 ^ d + n * 2 ^ e := by
        rw [Nat.cast_add, add_mul, decreaseExponent_mantissa m (min_le_left d e),
          decreaseExponent_mantissa n (min_le_right d e)]
      rw [← hvalue, ← place_kept_normalize _ _ .positive]
      rfl

/-- **Difference.** The double nearest to the exact one, when that is not below zero. -/
theorem place_kept_sub (hp : IsValue u p) (hq : IsValue w q) (hu : Fitting u) (hle : q ≤ p) :
    place (kept (UnpackedFloat.sub binary64 u w)) = some (rounded (p - q)) := by
  cases hq with
  | zero t =>
    rw [sub_zero]
    cases hp with
    | zero s =>
      rw [rounded_zero]
      cases s <;> cases t <;> rfl
    | finite m d hm =>
      have hvalue := IsValue.finite m d hm
      show place (kept (.finite .positive m d hm)) = _
      rw [hvalue.kept_eq hu, hvalue.place_eq hu]
  | finite n e hn =>
    cases hp with
    | zero s =>
      have : (0 : Rat) < n * 2 ^ e := mul_pos (Nat.cast_pos.mpr hn) (zpow_pos two_pos e)
      exact absurd hle this.not_ge
    | finite m d hm =>
      have hm' := decreaseExponent_mantissa m (min_le_left d e)
      have hn' := decreaseExponent_mantissa n (min_le_right d e)
      have hnm : (decreaseExponent n e (min d e)).1 ≤ (decreaseExponent m d (min d e)).1 := by
        rw [← hm', ← hn'] at hle
        exact_mod_cast le_of_mul_le_mul_right hle (zpow_pos two_pos _)
      have hvalue :
          ((decreaseExponent m d (min d e)).1 - (decreaseExponent n e (min d e)).1 : Nat) *
            (2 : Rat) ^ (min d e) = m * 2 ^ d - n * 2 ^ e := by
        rw [Nat.cast_sub hnm, sub_mul, hm', hn']
      rw [← hvalue, ← place_kept_normalize _ _ .positive, Int.ofNat_sub hnm]
      rfl

/-! ## Products -/

/-- A product has bits enough to be rounded. One factor of full length is enough for it. -/
theorem Fits.le_spacing_mul (h : Fits m d) (h' : Fits n e) :
    d + e ≤ spacing ((m * n : Nat) * 2 ^ (d + e)) := by
  have hfull (hmn : 2 ^ 52 ≤ m * n) : d + e ≤ spacing ((m * n : Nat) * 2 ^ (d + e)) :=
    le_spacing_of_le (le_value_of_le hmn)
  obtain hm | hd := h.full
  · exact hfull (hm.trans (Nat.le_mul_of_pos_right m h'.pos))
  obtain hn | he := h'.full
  · exact hfull (hn.trans (Nat.le_mul_of_pos_left n h.pos))
  · have := le_spacing ((m * n : Nat) * 2 ^ (d + e))
    omega

/-- **Product.** The double nearest to the exact product. -/
theorem place_kept_mul (hp : IsValue u p) (hq : IsValue w q) (hu : Fitting u) (hw : Fitting w) :
    place (kept (UnpackedFloat.mul binary64 u w)) = some (rounded (p * q)) := by
  cases hp with
  | zero s =>
    rw [zero_mul, rounded_zero]
    cases hq with
    | zero t =>
      exact place_kept_zero _
    | finite n e hn =>
      exact place_kept_zero _
  | finite m d hm =>
    cases hq with
    | zero t =>
      rw [mul_zero, rounded_zero]
      exact place_kept_zero _
    | finite n e hn =>
      have hvalue : ((m * n : Nat) : Rat) * 2 ^ (d + e) = m * 2 ^ d * (n * 2 ^ e) := by
        rw [zpow_add₀ two_ne_zero]
        push_cast
        ring
      rw [← hvalue]
      exact place_kept_exact (Nat.mul_pos hm hn) (Fits.le_spacing_mul hu hw)

/-! ## Quotients -/

/-- The remainder tells how far the exact quotient is from its whole part. -/
private theorem extended_div (m : Nat) (hn : 0 < n) :
    ExtendedMantissa.ofMantissaAndAccuracy (m / n) (accuracyOfFraction (m % n) n) =
      extended (m / n) := by
  -- Twice the quotient is split into twice its whole part and what the remainder adds.
  have hfloor : ⌊2 * ((m : Rat) / n)⌋₊ = 2 * (m / n) + 2 * (m % n) / n := by
    have hsplit : 2 * m = n * (2 * (m / n)) + 2 * (m % n) := by
      have := Nat.div_add_mod m n
      rw [Nat.mul_left_comm]
      omega
    rw [← mul_div_assoc, ← Nat.cast_ofNat, ← Nat.cast_mul, Nat.floor_div_eq_div, hsplit,
      Nat.mul_add_div hn]
  have hwhole : ((2 * (m / n) + 2 * (m % n) / n : Nat) : Rat) = 2 * (m / n) ↔
      2 * (m % n) / n * n = 2 * (m % n) := by
    have hexpand : (2 * (m / n) + 2 * (m % n) / n) * n =
        2 * (n * (m / n)) + 2 * (m % n) / n * n := by ring
    have := Nat.div_add_mod m n
    have hcast : ((2 * (m / n) + 2 * (m % n) / n : Nat) : Rat) * n = 2 * m ↔
        (2 * (m / n) + 2 * (m % n) / n) * n = 2 * m := by norm_cast
    rw [← mul_div_assoc, eq_div_iff (Nat.cast_ne_zero.mpr hn.ne'), hcast]
    omega
  have hr := Nat.mod_lt m hn
  have hmantissa (c : Nat) (hc : c < 2) :
      (2 * (m / n) + c) / 2 = m / n ∧ (2 * (m / n) + c) % 2 = c := by omega
  rw [extended, hfloor, accuracyOfFraction]
  simp only [ne_eq, hwhole]
  split
  · rename_i hzero
    simp [hzero, ExtendedMantissa.ofMantissaAndAccuracy]
  · rename_i hpos
    obtain hlt | heq | hgt := lt_trichotomy (2 * (m % n)) n
    · rw [Nat.compare_eq_lt.mpr hlt, Nat.div_eq_of_lt hlt, (hmantissa 0 two_pos).1,
        (hmantissa 0 two_pos).2, zero_mul, decide_eq_true (by omega)]
      rfl
    · rw [Nat.compare_eq_eq.mpr heq, heq, Nat.div_self hn, (hmantissa 1 one_lt_two).1,
        (hmantissa 1 one_lt_two).2, decide_eq_false (by omega)]
      rfl
    · have hdiv : 2 * (m % n) / n = 1 := Nat.div_eq_of_lt_le (by omega) (by omega)
      rw [Nat.compare_eq_gt.mpr hgt, hdiv, (hmantissa 1 one_lt_two).1,
        (hmantissa 1 one_lt_two).2, decide_eq_true (by omega)]
      rfl

private theorem two_zpow_log_le (hm : 0 < m) (d : Int) : (2 : Rat) ^ (m.log2 + d) ≤ m * 2 ^ d := by
  rw [zpow_add₀ two_ne_zero, zpow_natCast]
  have hmantissa : ((2 ^ m.log2 : Nat) : Rat) ≤ m := Nat.cast_le.mpr (Nat.log2_self_le hm.ne')
  exact mul_le_mul_of_nonneg_right (by exact_mod_cast hmantissa) (zpow_pos two_pos d).le

private theorem lt_two_zpow_log (n : Nat) (e : Int) : (n * 2 ^ e : Rat) < 2 ^ (n.log2 + 1 + e) := by
  rw [zpow_add₀ two_ne_zero]
  exact mul_lt_mul_of_pos_right (by exact_mod_cast Nat.lt_log2_self) (zpow_pos two_pos e)

/-- A quotient is computed with bits enough to be rounded. The two logarithms tell the size of the
quotient but for one bit. -/
private theorem targetExponent_le_spacing (hm : 0 < m) (hn : 0 < n) (d e : Int) :
    binary64.targetExponent (totalExponent m d - totalExponent n e) ≤
      spacing (m * 2 ^ d / (n * 2 ^ e)) := by
  rw [targetExponent_eq]
  refine max_le (le_spacing_of_le ?_) (le_spacing _)
  have hpos : (0 : Rat) < n * 2 ^ e := mul_pos (Nat.cast_pos.mpr hn) (zpow_pos two_pos e)
  rw [le_div_iff₀ hpos]
  calc (2 : Rat) ^ (52 + (totalExponent m d - totalExponent n e - 53)) * (n * 2 ^ e)
      ≤ 2 ^ (52 + (totalExponent m d - totalExponent n e - 53)) * 2 ^ (n.log2 + 1 + e) :=
        mul_le_mul_of_nonneg_left (lt_two_zpow_log n e).le (zpow_pos two_pos _).le
    _ = 2 ^ (m.log2 + d) := by
        rw [← zpow_add₀ two_ne_zero, totalExponent, totalExponent]
        congr 1
        omega
    _ ≤ m * 2 ^ d := two_zpow_log_le hm d

/-- **Quotient.** The double nearest to the exact quotient. -/
theorem place_kept_div (hp : IsValue u p) (hq : IsValue w q) (hpos : 0 < q) :
    place (kept (UnpackedFloat.div binary64 u w)) = some (rounded (p / q)) := by
  cases hq with
  | zero t => exact absurd hpos (lt_irrefl 0)
  | finite n e hn =>
    cases hp with
    | zero s =>
      rw [zero_div, rounded_zero]
      exact place_kept_zero _
    | finite m d hm =>
      have hle := targetExponent_le_spacing hm hn d e
      have hmin := min_le_right (d - e)
        (binary64.targetExponent (totalExponent m d - totalExponent n e))
      have hmin' := min_le_left (d - e)
        (binary64.targetExponent (totalExponent m d - totalExponent n e))
      show place (kept (roundWithAccuracy binary64 .positive (_ / n) (min (d - e) _) _)) = _
      generalize min (d - e) (binary64.targetExponent
        (totalExponent m d - totalExponent n e)) = t at *
      -- The dividend is made longer until the whole part of the quotient has all the bits of a
      -- double.
      have hvalue : ((m <<< (d - e - t).toNat : Nat) : Rat) / n * 2 ^ t =
          m * 2 ^ d / (n * 2 ^ e) := by
        have hlonger : ((m <<< (d - e - t).toNat : Nat) : Rat) * 2 ^ t = m * 2 ^ (d - e) :=
          decreaseExponent_mantissa m hmin'
        rw [div_mul_eq_mul_div, hlonger, zpow_sub₀ two_ne_zero, ← mul_div_assoc, div_div,
          mul_comm (2 ^ e : Rat)]
      rw [← hvalue]
      refine place_kept_roundWithAccuracy (extended_div _ hn) ?_ ?_
      · have hlonger := decreaseExponent_pos hm t (d - e)
        exact div_pos (Nat.cast_pos.mpr hlonger) (Nat.cast_pos.mpr hn)
      · rw [hvalue]
        exact hmin.trans hle

end PolicyDesk.Double
