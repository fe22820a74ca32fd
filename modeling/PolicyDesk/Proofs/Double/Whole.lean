import PolicyDesk.Proofs.Double.Arithmetic
import PolicyDesk.Quantity

/-!
# Whole numbers

- **Exactness** (`isValue_of_place`): 53 bits are kept as they are, so sums and differences that
  need no more are exact.
- **Rounding a half away from zero** (`isValue_roundHalfAway`): from zero on, rounding is exact too.
-/

namespace PolicyDesk.Double

open Float.Model (UnpackedFloat)
open Float.Model.UnpackedFloat (Sign ExtendedMantissa decreaseExponent roundToInt)
open Float.Model.Format (binary64)
open Decimal (wholeFrom roundHalfAway)

variable {u w : UnpackedFloat} {p q : Rat} {m n : Nat} {d e : Int} {x y : Float}

/-! ## Exactness -/

/-- A mantissa that is too short fits with a smaller exponent. It is shifted to the left until it
has all its bits or the exponent is the least one. -/
private theorem exists_fits (hn : 0 < n) (hlt : n < 2 ^ 53) (hleast : -1074 ≤ e)
    (hgreatest : e ≤ 971) :
    ∃ m d, Fits m d ∧ (m * 2 ^ d : Rat) = n * 2 ^ e := by
  have hlog : n.log2 < 53 := (Nat.log2_lt hn.ne').mpr hlt
  -- So many bits are missing, but the exponent may run out first.
  obtain ⟨k, hk, hle, hfull⟩ : ∃ k : Nat, n.log2 + k ≤ 52 ∧ -1074 ≤ e - k ∧
      (n.log2 + k = 52 ∨ e - k = -1074) :=
    ⟨min (52 - n.log2) (e + 1074).toNat, by omega, by omega, by omega⟩
  refine ⟨n * 2 ^ k, e - k, ⟨by positivity, ?_, hle, by omega, hfull.imp_left fun h => ?_⟩, ?_⟩
  · calc n * 2 ^ k < 2 ^ (n.log2 + 1) * 2 ^ k :=
          Nat.mul_lt_mul_of_pos_right Nat.lt_log2_self (by positivity)
      _ = 2 ^ (n.log2 + 1 + k) := (pow_add _ _ _).symm
      _ ≤ 2 ^ 53 := Nat.pow_le_pow_right (by decide) (by omega)
  · calc 2 ^ 52 = 2 ^ n.log2 * 2 ^ k := by rw [← pow_add, h]
      _ ≤ n * 2 ^ k := Nat.mul_le_mul_right _ (Nat.log2_self_le hn.ne')
  · rw [Nat.cast_mul, Nat.cast_pow, Nat.cast_ofNat, ← zpow_natCast, mul_assoc,
      ← zpow_add₀ two_ne_zero, add_sub_cancel]

/-- The number is the value of a double. -/
def Exact (q : Rat) : Prop := ∃ u, Fitting u ∧ IsValue u q

theorem exact_of_mantissa (hlt : n < 2 ^ 53) (hleast : -1074 ≤ e) (hgreatest : e ≤ 971) :
    Exact (n * 2 ^ e) := by
  obtain rfl | hn := Nat.eq_zero_or_pos n
  · refine ⟨.zero .positive, trivial, ?_⟩
    rw [Nat.cast_zero, zero_mul]
    exact .zero _
  · obtain ⟨m, d, hfits, heq⟩ := exists_fits hn hlt hleast hgreatest
    refine ⟨.finite .positive m d hfits.pos, hfits, ?_⟩
    rw [← heq]
    exact .finite m d hfits.pos

/-- What is nearest to a number of 53 bits is that number. So an exact result of so many bits is
computed without error. -/
theorem isValue_of_place (hu : Fitting u) (hlt : n < 2 ^ 53) (hleast : -1074 ≤ e)
    (hgreatest : e ≤ 971) (h : place u = some (rounded (n * 2 ^ e))) : IsValue u (n * 2 ^ e) := by
  obtain ⟨w, hw, hq⟩ := exact_of_mantissa hlt hleast hgreatest
  have hplace := hq.place_eq hw
  obtain ⟨p, hp⟩ | rfl := isValue_or_infinity hu h (rounded_nonneg _)
  · have hle := hp.le_of_place hq hu hw h hplace le_rfl
    have hge := hq.le_of_place hp hw hu hplace h le_rfl
    rwa [le_antisymm hge hle]
  · obtain heq : top = rounded (n * 2 ^ e) := Option.some.inj h
    exact absurd heq (hq.rounded_lt_top hw).ne'

theorem isValue_of_place_natCast (hu : Fitting u) (hlt : n < 2 ^ 53)
    (h : place u = some (rounded n)) : IsValue u n := by
  have hone : (n : Rat) = n * 2 ^ (0 : Int) := by rw [zpow_zero, mul_one]
  rw [hone] at h ⊢
  exact isValue_of_place hu hlt (by decide) (by decide) h

/-! ## Comparing values -/

theorem lt_iff_of_isValue (hx : IsValue (read x) p) (hy : IsValue (read y) q) : x < y ↔ p < q := by
  have hp := hx.place_eq (read_fitting x)
  have hq := hy.place_eq (read_fitting y)
  rw [lt_iff]
  constructor
  · rintro ⟨a, b, ha, hb, hlt⟩
    rw [hp] at ha
    rw [hq] at hb
    cases ha
    cases hb
    exact lt_of_not_ge fun hle => hlt.not_ge (rounded_le_rounded hle)
  · intro hlt
    refine ⟨_, _, hp, hq, lt_of_not_ge fun hle => ?_⟩
    exact hlt.not_ge (hy.le_of_place hx (read_fitting y) (read_fitting x) hq hp hle)

private theorem eq_of_beq (hx : IsValue (read x) p) (hy : IsValue (read y) q)
    (h : (x == y) = true) :
    p = q := by
  have hx' := read_fitting x
  have hy' := read_fitting y
  obtain ⟨a, ha, hb⟩ := beq_iff.mp h
  exact le_antisymm (hx.le_of_place hy hx' hy' ha hb le_rfl)
    (hy.le_of_place hx hy' hx' hb ha le_rfl)

/-! ## Between doubles and whole numbers -/

/-- The whole part of a mantissa with an exponent. Shifting a mantissa to the right drops what is
behind the point. -/
private theorem roundToInt_eq (m : Nat) (e : Int) :
    roundToInt .positive m e = (⌊(m * 2 ^ e : Rat)⌋₊ : Int) := by
  have hvalue := decreaseExponent_value m 0 e
  have hle := decreaseExponent_exponent_le m 0 e
  unfold roundToInt
  generalize decreaseExponent m e 0 = longer at *
  obtain ⟨n, d⟩ := longer
  have hshift : (n : Rat) / 2 ^ (0 - d).toNat = n * 2 ^ d := by
    rw [div_eq_mul_inv, ← zpow_natCast, ← zpow_neg]
    congr 2
    omega
  show ((ExtendedMantissa.mk n false false >>> (0 - d).toNat).mantissa : Int) = _
  rw [← extended_natCast, extended_shiftRight, extended_mantissa, hshift, hvalue]

private theorem toInt_eq (h : IsValue u p) (a b : Int) : u.toInt a b = ⌊p⌋₊ := by
  cases h with
  | zero s =>
    rw [Nat.floor_zero]
    rfl
  | finite m e hm => exact roundToInt_eq m e

/-- A double below `2 ^ 64` is cut off at the point. -/
theorem toNat_toUInt64 (h : IsValue (read x) p) (hlt : p < 2 ^ 64) : x.toUInt64.toNat = ⌊p⌋₊ := by
  have hfloor : ⌊p⌋₊ < 2 ^ 64 := (Nat.floor_lt h.nonneg).mpr (by exact_mod_cast hlt)
  have hread : x.toUInt64 = UInt64.ofNatClamp ((read x).toInt 0 (UInt64.size - 1)).toNat := rfl
  rw [hread, toInt_eq h, Int.toNat_natCast, UInt64.ofNatClamp_eq_ofNat _ hfloor,
    UInt64.toNat_ofNat_of_lt' hfloor]

theorem isValue_toFloat (k : UInt64) (h : k.toNat < 2 ^ 53) : IsValue (read k.toFloat) k.toNat := by
  refine isValue_of_place_natCast (read_fitting _) h ?_
  have hplace := place_kept_normalize k.toNat 0 .positive
  rwa [zpow_zero, mul_one] at hplace

/-! ## Rounding a half away from zero -/

private theorem isValue_abs (h : IsValue (read x) p) : IsValue (read x.abs) p := by
  have hread : read x.abs = kept (read x).abs := rfl
  have hx := read_fitting x
  rw [hread]
  generalize read x = u at *
  cases h with
  | zero s =>
    show IsValue (kept (.zero .positive)) 0
    rw [(IsValue.zero .positive).kept_eq trivial]
    exact .zero .positive
  | finite m e hm =>
    show IsValue (kept (.finite .positive m e hm)) _
    rw [(IsValue.finite m e hm).kept_eq hx]
    exact .finite m e hm

/-- What is left beyond the whole part needs no more bits. It is the rest of the mantissa after the
bits before the point. -/
private theorem IsValue.exists_fraction (h : IsValue u p) (hu : Fitting u) :
    ∃ (n : Nat) (e : Int), n < 2 ^ 53 ∧ -1074 ≤ e ∧ e ≤ 971 ∧ p - ⌊p⌋₊ = n * 2 ^ e := by
  cases h with
  | zero s => exact ⟨0, 0, by norm_num⟩
  | finite m e hm =>
    obtain he | he := le_or_gt 0 e
    · have hwhole : (m * 2 ^ e : Rat) = (m * 2 ^ e.toNat : Nat) := by
        rw [Nat.cast_mul, Nat.cast_pow, Nat.cast_ofNat, ← zpow_natCast, Int.toNat_of_nonneg he]
      refine ⟨0, 0, by decide, by decide, by decide, ?_⟩
      rw [hwhole, Nat.floor_natCast, sub_self, Nat.cast_zero, zero_mul]
    · have hinv : (2 : Rat) ^ e = ((2 ^ (-e).toNat : Nat) : Rat)⁻¹ := by
        rw [Nat.cast_pow, Nat.cast_ofNat, ← zpow_natCast, ← zpow_neg]
        congr 1
        omega
      have hpos : ((2 ^ (-e).toNat : Nat) : Rat) ≠ 0 := by positivity
      have hsplit : ((2 ^ (-e).toNat : Nat) : Rat) * (m / 2 ^ (-e).toNat : Nat) +
          (m % 2 ^ (-e).toNat : Nat) = m := by exact_mod_cast Nat.div_add_mod m _
      refine ⟨m % 2 ^ (-e).toNat, e, (Nat.mod_le _ _).trans_lt hu.mantissa, hu.least,
        hu.greatest, ?_⟩
      rw [hinv, ← div_eq_mul_inv, ← div_eq_mul_inv, Nat.floor_div_eq_div, eq_div_iff hpos, sub_mul,
        div_mul_cancel₀ _ hpos]
      linarith

theorem isValue_of_read (hm : 0 < m) (h : read x = .finite .positive m e hm)
    (hq : (m * 2 ^ e : Rat) = q) : IsValue (read x) q := by
  rw [h, ← hq]
  exact .finite m e hm

theorem isValue_zero : IsValue (read 0.0) 0 := .zero .positive

private theorem isValue_half : IsValue (read 0.5) (1 / 2) :=
  isValue_of_read (m := 2 ^ 52) (e := -53) (by decide) rfl (by norm_num)

private theorem isValue_one : IsValue (read 1.0) 1 :=
  isValue_of_read (m := 2 ^ 52) (e := -52) (by decide) rfl (by norm_num)

theorem isValue_wholeFrom : IsValue (read wholeFrom) (2 ^ 52) :=
  isValue_of_read (m := 2 ^ 52) (e := 0) (by decide) rfl (by norm_num)

/-- Half a unit more reaches the next whole number exactly from a half on. -/
private theorem floor_add_half (hp : 0 ≤ p) :
    ⌊p + 1 / 2⌋₊ = if p - ⌊p⌋₊ < 1 / 2 then ⌊p⌋₊ else ⌊p⌋₊ + 1 := by
  have hle : (⌊p⌋₊ : Rat) ≤ p := Nat.floor_le hp
  have hlt : p < ⌊p⌋₊ + 1 := Nat.lt_floor_add_one p
  rw [Nat.floor_eq_iff (by linarith)]
  split
  · constructor <;> linarith
  · push_cast
    constructor <;> linarith

/-- From zero on, the nearest whole number is exact. -/
theorem isValue_roundHalfAway (h : IsValue (read x) p) (hlt : p < 2 ^ 52) :
    IsValue (read (roundHalfAway x)) ⌊p + 1 / 2⌋₊ := by
  have habs := isValue_abs h
  have hfloor : ⌊p⌋₊ < 2 ^ 52 := (Nat.floor_lt h.nonneg).mpr (by exact_mod_cast hlt)
  have hle : (⌊p⌋₊ : Rat) ≤ p := Nat.floor_le h.nonneg
  have hwhole := toNat_toUInt64 habs (hlt.trans (by norm_num))
  have hbelow := isValue_toFloat x.abs.toUInt64 (by omega)
  rw [hwhole] at hbelow
  -- Both numbers that the code compares with a half are exact: what is left beyond the whole part,
  -- and the whole number after it.
  have hfraction : IsValue (read (x.abs - x.abs.toUInt64.toFloat)) (p - ⌊p⌋₊) := by
    obtain ⟨n, e, hn, hleast, hgreatest, heq⟩ := habs.exists_fraction (read_fitting _)
    have hplace := place_kept_sub habs hbelow (read_fitting _) hle
    rw [heq] at hplace ⊢
    exact isValue_of_place (read_fitting _) hn hleast hgreatest hplace
  have habove : IsValue (read (x.abs.toUInt64.toFloat + 1.0)) (⌊p⌋₊ + 1 : Nat) := by
    have hplace := place_kept_add hbelow isValue_one (read_fitting _) (read_fitting _)
    refine isValue_of_place_natCast (read_fitting _) (by omega) ?_
    exact_mod_cast hplace
  rw [roundHalfAway, if_pos ((lt_iff_of_isValue habs isValue_wholeFrom).mpr hlt)]
  dsimp only
  rw [if_neg fun hneg => ((lt_iff_of_isValue h isValue_zero).mp hneg).not_ge h.nonneg]
  split
  · rename_i hzero
    obtain rfl := eq_of_beq h isValue_zero hzero
    rwa [show ⌊(0 + 1 / 2 : Rat)⌋₊ = 0 by norm_num, Nat.cast_zero]
  · rw [floor_add_half h.nonneg]
    simp only [lt_iff_of_isValue hfraction isValue_half]
    split
    · exact hbelow
    · exact habove

/-- Such a double has no bits behind the point. -/
theorem roundHalfAway_eq_self (h : IsValue (read x) p) (hle : 2 ^ 52 ≤ p) :
    roundHalfAway x = x :=
  if_neg fun hlt => ((lt_iff_of_isValue (isValue_abs h) isValue_wholeFrom).mp hlt).not_ge hle

end PolicyDesk.Double
