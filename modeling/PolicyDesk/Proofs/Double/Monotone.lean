import PolicyDesk.Proofs.Double.Whole
import PolicyDesk.Proofs.Quantity

/-!
# Doubles are monotone

From zero on, an operation on doubles has as its result the double nearest to the exact one,
infinity, or none at all. Where the exact results are ordered the nearest doubles are, and infinity
is above all of them.

- **Sums, products and quotients** (`add_ordered`, `mul_ordered`, `div_ordered`): one of the
  operands is infinite, or the exact result decides (`sum_cases`, `product_cases`).
- **Rounding** (`round_ordered`): the whole number is exact (`isValue_round`).
- **Undefined results** (`isNumber_of_operation`): what is computed from one is undefined.
-/

namespace PolicyDesk.Double

open Float.Model (UnpackedFloat)
open Float.Model.UnpackedFloat (Sign)
open Float.Model.Format (binary64)
open Quantity (whole IsNumber)

variable {x x' y y' : Float} {u w : UnpackedFloat} {p q : Rat} {a b : Int}

/-! ## From zero on -/

/-- From zero on a number has a value or is infinite. -/
def FromZero (u : UnpackedFloat) : Prop := (∃ p, IsValue u p) ∨ u = .infinity .positive

theorem double_le_trans {z : Float} (h : x ≤ y) (h' : y ≤ z) : x ≤ z := by
  obtain ⟨a, b, ha, hb, hab⟩ := le_iff.mp h
  obtain ⟨b', c, hb', hc, hbc⟩ := le_iff.mp h'
  rw [hb] at hb'
  cases hb'
  exact le_iff.mpr ⟨a, c, ha, hc, hab.trans hbc⟩

theorem isNumber_iff : IsNumber x ↔ ∃ a, place (read x) = some a := by
  rw [IsNumber, le_iff]
  constructor
  · rintro ⟨a, _, ha, -, -⟩
    exact ⟨a, ha⟩
  · rintro ⟨a, ha⟩
    exact ⟨a, a, ha, ha, le_rfl⟩

private theorem place_eq_none_iff : place u = none ↔ u = .notANumber := by
  constructor
  · intro h
    cases u with
    | notANumber => rfl
    | _ => cases h
  · rintro rfl
    rfl

theorem isNumber_iff_ne : IsNumber x ↔ read x ≠ .notANumber := by
  rw [isNumber_iff, ← Option.ne_none_iff_exists', Ne, place_eq_none_iff]

private theorem place_whole_zero : place (read (whole 0)) = some 0 := rfl

theorem zero_le_iff : whole 0 ≤ x ↔ ∃ a, place (read x) = some a ∧ 0 ≤ a := by
  rw [le_iff, place_whole_zero]
  simp

theorem fromZero_of_le (h : whole 0 ≤ x) : FromZero (read x) := by
  obtain ⟨a, ha, hpos⟩ := zero_le_iff.mp h
  exact isValue_or_infinity (read_fitting x) ha hpos

/-- What is no greater than a value is one. -/
theorem isValue_of_le (hx : whole 0 ≤ x) (h : x ≤ x') (hq : IsValue (read x') q) :
    ∃ p, IsValue (read x) p ∧ p ≤ q := by
  obtain ⟨a, b, ha, hb, hle⟩ := le_iff.mp h
  obtain ⟨p, hp⟩ | hinf := fromZero_of_le hx
  · exact ⟨p, hp, hp.le_of_place hq (read_fitting x) (read_fitting x') ha hb hle⟩
  · rw [hinf] at ha
    cases ha
    have hlt := hq.rounded_lt_top (read_fitting x')
    rw [hq.place_eq (read_fitting x')] at hb
    cases hb
    exact absurd hle hlt.not_ge

/-- The results of an operation, in order. Every operation below is brought to this. -/
theorem ordered_of_place (ha : place (read x) = some a) (hb : place (read x') = some b)
    (hpos : 0 ≤ a) (hle : a ≤ b) : whole 0 ≤ x ∧ x ≤ x' :=
  ⟨zero_le_iff.mpr ⟨a, ha, hpos⟩, le_iff.mpr ⟨a, b, ha, hb, hle⟩⟩

/-- Nothing is above infinity. -/
theorem ordered_of_infinity (h : FromZero (read x)) (h' : read x' = .infinity .positive) :
    whole 0 ≤ x ∧ x ≤ x' := by
  have hplace : place (read x') = some top := by
    rw [h']
    rfl
  obtain ⟨p, hp⟩ | hinf := h
  · exact ordered_of_place (hp.place_eq (read_fitting x)) hplace (rounded_nonneg p)
      (rounded_le_top p)
  · refine ordered_of_place ?_ hplace (by decide) le_rfl
    rw [hinf]
    rfl

theorem fromZero_of_place (h : place (read x) = some (rounded p)) : FromZero (read x) :=
  isValue_or_infinity (read_fitting x) h (rounded_nonneg p)

/-! ## Sums -/

/-- A sum with infinity is infinite. -/
theorem sum_cases (hu : FromZero u) (hw : FromZero w) :
    (∃ p q, IsValue u p ∧ IsValue w q) ∨
      UnpackedFloat.add binary64 u w = .infinity .positive := by
  obtain ⟨p, hp⟩ | rfl := hu
  · obtain ⟨q, hq⟩ | rfl := hw
    · exact .inl ⟨p, q, hp, hq⟩
    · cases hp <;> exact .inr rfl
  · obtain ⟨q, hq⟩ | rfl := hw
    · cases hq <;> exact .inr rfl
    · exact .inr rfl

theorem read_add_eq_infinity
    (h : UnpackedFloat.add binary64 (read x) (read y) = .infinity .positive) :
    read (x + y) = .infinity .positive :=
  (congrArg kept h : kept _ = kept (.infinity .positive))

theorem fromZero_add (hx : FromZero (read x)) (hy : FromZero (read y)) :
    FromZero (read (x + y)) := by
  obtain ⟨p, q, hp, hq⟩ | hinf := sum_cases hx hy
  · exact fromZero_of_place (place_kept_add hp hq (read_fitting x) (read_fitting y))
  · exact .inr (read_add_eq_infinity hinf)

theorem add_ordered (hx : whole 0 ≤ x) (hxx' : x ≤ x') (hy : whole 0 ≤ y) (hyy' : y ≤ y') :
    whole 0 ≤ x + y ∧ x + y ≤ x' + y' := by
  have hx' := fromZero_of_le (double_le_trans hx hxx')
  have hy' := fromZero_of_le (double_le_trans hy hyy')
  obtain ⟨p', q', hp', hq'⟩ | hinf := sum_cases hx' hy'
  · obtain ⟨p, hp, hpp'⟩ := isValue_of_le hx hxx' hp'
    obtain ⟨q, hq, hqq'⟩ := isValue_of_le hy hyy' hq'
    exact ordered_of_place (place_kept_add hp hq (read_fitting x) (read_fitting y))
      (place_kept_add hp' hq' (read_fitting x') (read_fitting y')) (rounded_nonneg _)
      (rounded_le_rounded (add_le_add hpp' hqq'))
  · exact ordered_of_infinity (fromZero_add (fromZero_of_le hx) (fromZero_of_le hy))
      (read_add_eq_infinity hinf)

/-! ## Products -/

/-- Zero times infinity is undefined. -/
theorem product_cases (hu : FromZero u) (hw : FromZero w) :
    (∃ p q, IsValue u p ∧ IsValue w q) ∨
      UnpackedFloat.mul binary64 u w = .infinity .positive ∨
      UnpackedFloat.mul binary64 u w = .notANumber := by
  obtain ⟨p, hp⟩ | rfl := hu
  · obtain ⟨q, hq⟩ | rfl := hw
    · exact .inl ⟨p, q, hp, hq⟩
    · cases hp with
      | zero s => exact .inr (.inr rfl)
      | finite m e hm => exact .inr (.inl rfl)
  · obtain ⟨q, hq⟩ | rfl := hw
    · cases hq with
      | zero s => exact .inr (.inr rfl)
      | finite m e hm => exact .inr (.inl rfl)
    · exact .inr (.inl rfl)

private theorem product_cases_of_isNumber (hx : FromZero (read x)) (hy : FromZero (read y))
    (h : IsNumber (x * y)) :
    (∃ p q, IsValue (read x) p ∧ IsValue (read y) q) ∨ read (x * y) = .infinity .positive := by
  obtain hvalues | hinf | hnone := product_cases hx hy
  · exact .inl hvalues
  · exact .inr (congrArg kept hinf : kept _ = kept (.infinity .positive))
  · exact absurd (congrArg kept hnone) (isNumber_iff_ne.mp h)

theorem mul_ordered (hy : whole 0 ≤ y) (hx : whole 0 ≤ x) (hxx' : x ≤ x') (hn : IsNumber (x * y))
    (hn' : IsNumber (x' * y)) : whole 0 ≤ x * y ∧ x * y ≤ x' * y := by
  have hx' := fromZero_of_le (double_le_trans hx hxx')
  have hy' := fromZero_of_le hy
  obtain ⟨p', q, hp', hq⟩ | hinf := product_cases_of_isNumber hx' hy' hn'
  · obtain ⟨p, hp, hpp'⟩ := isValue_of_le hx hxx' hp'
    exact ordered_of_place (place_kept_mul hp hq (read_fitting x) (read_fitting y))
      (place_kept_mul hp' hq (read_fitting x') (read_fitting y)) (rounded_nonneg _)
      (rounded_le_rounded (mul_le_mul_of_nonneg_right hpp' hq.nonneg))
  · refine ordered_of_infinity ?_ hinf
    obtain ⟨p, q, hp, hq⟩ | hinf := product_cases_of_isNumber (fromZero_of_le hx) hy' hn
    · exact fromZero_of_place (place_kept_mul hp hq (read_fitting x) (read_fitting y))
    · exact .inr hinf

/-! ## Quotients -/

theorem read_div_eq_infinity (hx : read x = .infinity .positive) (hq : IsValue (read y) q)
    (hpos : 0 < q) : read (x / y) = .infinity .positive := by
  have hread : read (x / y) = kept (UnpackedFloat.div binary64 (read x) (read y)) := rfl
  rw [hread, hx]
  generalize read y = w at *
  cases hq with
  | zero s => exact absurd hpos (lt_irrefl 0)
  | finite m e hm =>
    show kept (.infinity .positive) = _
    rfl

/-- What has a value and is divided by infinity is nothing. -/
theorem place_value_div_infinity (hx : IsValue (read x) p) (hy : read y = .infinity .positive) :
    place (read (x / y)) = some 0 := by
  have hread : read (x / y) = kept (UnpackedFloat.div binary64 (read x) (read y)) := rfl
  rw [hread, hy]
  generalize read x = u at *
  cases hx <;> exact place_kept_zero _

/-- What is divided by infinity is nothing, or undefined. -/
private theorem place_div_infinity (hx : FromZero (read x)) (hy : read y = .infinity .positive)
    (h : IsNumber (x / y)) : place (read (x / y)) = some 0 := by
  obtain ⟨p, hp⟩ | hx := hx
  · exact place_value_div_infinity hp hy
  · have hread : read (x / y) = kept (UnpackedFloat.div binary64 (read x) (read y)) := rfl
    rw [isNumber_iff_ne, hread, hx, hy] at h
    exact absurd rfl h

/-- Above zero a number has a value or is infinite. -/
theorem value_or_infinity_of_pos (hy : whole 0 < y) :
    (∃ q, IsValue (read y) q ∧ 0 < q) ∨ read y = .infinity .positive := by
  obtain ⟨a, b, ha, hb, hpos⟩ := lt_iff.mp hy
  cases ha
  obtain ⟨q, hq⟩ | hinf := isValue_or_infinity (read_fitting y) hb hpos.le
  · refine .inl ⟨q, hq, hq.nonneg.lt_of_ne ?_⟩
    rintro rfl
    rw [hq.place_eq (read_fitting y), rounded_zero] at hb
    cases hb
    exact absurd hpos (lt_irrefl 0)
  · exact .inr hinf

private theorem div_ordered_of_value (hq : IsValue (read y) q) (hpos : 0 < q) (hx : whole 0 ≤ x)
    (hxx' : x ≤ x') : whole 0 ≤ x / y ∧ x / y ≤ x' / y := by
  obtain ⟨p', hp'⟩ | hx' := fromZero_of_le (double_le_trans hx hxx')
  · obtain ⟨p, hp, hpp'⟩ := isValue_of_le hx hxx' hp'
    exact ordered_of_place (place_kept_div hp hq hpos) (place_kept_div hp' hq hpos)
      (rounded_nonneg _) (rounded_le_rounded (div_le_div_of_nonneg_right hpp' hpos.le))
  · refine ordered_of_infinity ?_ (read_div_eq_infinity hx' hq hpos)
    obtain ⟨p, hp⟩ | hx := fromZero_of_le hx
    · exact fromZero_of_place (place_kept_div hp hq hpos)
    · exact .inr (read_div_eq_infinity hx hq hpos)

/-- A divisor of infinity leaves nothing of both. -/
theorem div_ordered (hy : whole 0 < y) (hx : whole 0 ≤ x) (hxx' : x ≤ x') (hn : IsNumber (x / y))
    (hn' : IsNumber (x' / y)) : whole 0 ≤ x / y ∧ x / y ≤ x' / y := by
  obtain ⟨q, hq, hpos⟩ | hinf := value_or_infinity_of_pos hy
  · exact div_ordered_of_value hq hpos hx hxx'
  · exact ordered_of_place (place_div_infinity (fromZero_of_le hx) hinf hn)
      (place_div_infinity (fromZero_of_le (double_le_trans hx hxx')) hinf hn') le_rfl le_rfl

/-! ## Rounding to whole numbers -/

/-- From 2 to the 52 on, every double is a whole number. -/
def wholeValue (p : Rat) : Rat := if p < 2 ^ 52 then ⌊p + 1 / 2⌋₊ else p

/-- Rounding to whole numbers turns no order around, not even where it ends. -/
theorem wholeValue_le_wholeValue (h : p ≤ q) : wholeValue p ≤ wholeValue q := by
  rw [wholeValue, wholeValue]
  split
  · rename_i hp
    split
    · exact Nat.cast_le.mpr (Nat.floor_mono (by linarith))
    · rename_i hq
      -- The smaller number is rounded to `2 ^ 52` at most, where the other one begins.
      have hfloor : ⌊p + 1 / 2⌋₊ ≤ 2 ^ 52 := by
        rw [← Nat.lt_succ_iff, Nat.floor_lt']
        · push_cast
          linarith
        · decide
      exact le_trans (by exact_mod_cast hfloor) (not_lt.mp hq)
  · rename_i hp
    rw [if_neg fun hq => hp (h.trans_lt hq)]
    exact h

/-- The whole number that the code computes is the nearest one. -/
theorem isValue_round (h : IsValue (read x) p) :
    IsValue (read (Quantity.round x)) (wholeValue p) := by
  show IsValue (read (Decimal.roundHalfAway x)) _
  rw [wholeValue]
  split
  · exact isValue_roundHalfAway h ‹_›
  · rwa [roundHalfAway_eq_self h (not_lt.mp ‹_›)]

private theorem round_eq_self (h : ¬ x.abs < Decimal.wholeFrom) : Quantity.round x = x := if_neg h

theorem round_of_infinity (h : read x = .infinity .positive) : Quantity.round x = x := by
  refine round_eq_self fun hlt => ?_
  have habs : read x.abs = kept (read x).abs := rfl
  obtain ⟨a, b, ha, hb, hab⟩ := lt_iff.mp hlt
  rw [habs, h] at ha
  cases ha
  rw [isValue_wholeFrom.place_eq (read_fitting _)] at hb
  cases hb
  exact hab.not_ge (rounded_le_top _)

theorem isNumber_of_isNumber_round (h : IsNumber (Quantity.round x)) : IsNumber x := by
  rw [isNumber_iff_ne]
  intro hnone
  have habs : read x.abs = kept (read x).abs := rfl
  rw [round_eq_self, isNumber_iff_ne] at h
  · exact h hnone
  · intro hlt
    obtain ⟨a, b, ha, -⟩ := lt_iff.mp hlt
    rw [habs, hnone] at ha
    cases ha

theorem round_ordered (hx : whole 0 ≤ x) (hxx' : x ≤ x') :
    whole 0 ≤ Quantity.round x ∧ Quantity.round x ≤ Quantity.round x' := by
  obtain ⟨p', hp'⟩ | hinf := fromZero_of_le (double_le_trans hx hxx')
  · obtain ⟨p, hp, hle⟩ := isValue_of_le hx hxx' hp'
    have hround := isValue_round hp
    have hround' := isValue_round hp'
    exact ordered_of_place (hround.place_eq (read_fitting _)) (hround'.place_eq (read_fitting _))
      (rounded_nonneg _) (rounded_le_rounded (wholeValue_le_wholeValue hle))
  · rw [round_of_infinity hinf]
    refine ordered_of_infinity ?_ hinf
    obtain ⟨p, hp⟩ | hinf := fromZero_of_le hx
    · exact .inl ⟨_, isValue_round hp⟩
    · rw [round_of_infinity hinf]
      exact .inr hinf

/-! ## Monotonicity -/

/-- What is computed from an undefined result is undefined. -/
private theorem isNumber_of_operation {f : UnpackedFloat → UnpackedFloat → UnpackedFloat}
    {z : Float}
    (hleft : ∀ w, f .notANumber w = .notANumber) (hright : ∀ u, f u .notANumber = .notANumber)
    (hz : read z = kept (f (read x) (read y))) (h : IsNumber z) : IsNumber x ∧ IsNumber y := by
  rw [isNumber_iff_ne, hz] at h
  simp only [isNumber_iff_ne]
  refine ⟨fun hx => h ?_, fun hy => h ?_⟩
  · rw [hx, hleft]
    rfl
  · rw [hy, hright]
    rfl

private theorem isNumber_of_isNumber_add (h : IsNumber (x + y)) : IsNumber x ∧ IsNumber y :=
  isNumber_of_operation (fun _ => rfl) (fun u => by cases u <;> rfl) rfl h

private theorem isNumber_of_isNumber_mul (h : IsNumber (x * y)) : IsNumber x ∧ IsNumber y :=
  isNumber_of_operation (fun _ => rfl) (fun u => by cases u <;> rfl) rfl h

private theorem isNumber_of_isNumber_div (h : IsNumber (x / y)) : IsNumber x ∧ IsNumber y :=
  isNumber_of_operation (fun _ => rfl) (fun u => by cases u <;> rfl) rfl h

end PolicyDesk.Double

namespace PolicyDesk

open Double

instance : MonotoneQuantity Float where
  le_trans := double_le_trans
  isNumber_of_le h := by
    obtain ⟨a, b, ha, hb, -⟩ := le_iff.mp h
    exact ⟨isNumber_iff.mpr ⟨a, ha⟩, isNumber_iff.mpr ⟨b, hb⟩⟩
  lt_or_le hx hy := by
    obtain ⟨a, ha⟩ := isNumber_iff.mp hx
    obtain ⟨b, hb⟩ := isNumber_iff.mp hy
    obtain hlt | hle := lt_or_ge a b
    · exact .inl (lt_iff.mpr ⟨a, b, ha, hb, hlt⟩)
    · exact .inr (le_iff.mpr ⟨b, a, hb, ha, hle⟩)
  le_of_lt h := by
    obtain ⟨a, b, ha, hb, hlt⟩ := lt_iff.mp h
    exact le_iff.mpr ⟨a, b, ha, hb, hlt.le⟩
  not_le_of_lt h h' := by
    obtain ⟨a, b, ha, hb, hlt⟩ := lt_iff.mp h
    obtain ⟨b', a', hb', ha', hle⟩ := le_iff.mp h'
    rw [ha] at ha'
    rw [hb] at hb'
    cases ha'
    cases hb'
    exact hlt.not_ge hle
  isNumber_of_add := isNumber_of_isNumber_add
  isNumber_of_mul := isNumber_of_isNumber_mul
  isNumber_of_div := isNumber_of_isNumber_div
  isNumber_of_round := isNumber_of_isNumber_round
  add_le_add := add_ordered
  mul_le_mul := mul_ordered
  div_le_div := div_ordered
  round_le_round := round_ordered
  zero_le_neg_zero := le_iff.mpr ⟨0, 0, rfl, rfl, le_rfl⟩
  zero_lt_hundred := lt_iff.mpr ⟨0, _, rfl, rfl, by decide⟩

end PolicyDesk
