import Mathlib.Algebra.Order.Floor.Semifield
import Mathlib.Data.Int.Log
import Mathlib.Data.Rat.Floor
import Mathlib.Tactic.Linarith
import Mathlib.Tactic.NormNum
import Mathlib.Tactic.Positivity

/-!
# Doubles as places on a grid

The doubles from zero on, counted from zero, and their order.
-/

namespace PolicyDesk.Double

/-! ## The grid of the doubles

The doubles from zero on, counted from zero, and the one nearest to an exact number.

- **Nearest whole numbers** (`nearest`): a half goes to the even one, and no two numbers are turned
  around (`nearest_le_nearest`). `extended` is how a number is kept on the way there, and halving
  the number shifts what is kept (`extended_shiftRight`).
- **Places** (`rounded`): around a number the doubles lie `2 ^ spacing v` apart, and the nearest one
  is so many steps from zero. Greater numbers have no smaller place (`rounded_le_rounded`).
- **Doubles** (`Fits`): a double is the one nearest to its own value (`Fits.rounded_eq`), and more
  steps from zero are a greater value (`Fits.value_le`). -/

section

open Float.Model.UnpackedFloat (ExtendedMantissa)

/-! ### Nearest whole numbers -/

/-- A number from zero on as it is kept for rounding: its whole part, whether a half is left, and
whether there is more. -/
def extended (x : Rat) : ExtendedMantissa where
  mantissa := ⌊2 * x⌋₊ / 2
  roundBit := ⌊2 * x⌋₊ % 2 != 0
  stickyBit := decide ((⌊2 * x⌋₊ : Rat) ≠ 2 * x)

/-- The nearest whole number; a half goes to the even one. -/
def nearest (x : Rat) : Nat := (extended x).roundedMantissa

/-- The whole number of halves of a half is half the whole number of halves. -/
theorem floor_two_mul_half (x : Rat) : ⌊2 * (x / 2)⌋₊ = ⌊2 * x⌋₊ / 2 := by
  rw [← Nat.floor_div_ofNat]
  congr 1
  ring

/-- A shift by one bit halves the number, and what falls off is remembered. -/
private theorem extended_shiftRightOne (x : Rat) : (extended x).shiftRightOne = extended
    (x / 2) := by
  have hmore : ((⌊2 * x⌋₊ / 2 : Nat) : Rat) ≠ x ↔
      ⌊2 * x⌋₊ % 2 ≠ 0 ∨ (⌊2 * x⌋₊ : Rat) ≠ 2 * x := by
    rw [← not_and_or, not_iff_not]
    constructor
    · intro h
      have hwhole : 2 * x = (2 * (⌊2 * x⌋₊ / 2) : Nat) := by
        rw [Nat.cast_mul, h]
        norm_num
      have hfloor : ⌊2 * x⌋₊ = 2 * (⌊2 * x⌋₊ / 2) := by
        conv_lhs => rw [hwhole, Nat.floor_natCast]
      exact ⟨by omega, by rw [hfloor, ← hwhole]⟩
    · intro ⟨heven, hwhole⟩
      have hhalf : 2 * (⌊2 * x⌋₊ / 2) = ⌊2 * x⌋₊ := by omega
      rw [← hhalf, Nat.cast_mul, Nat.cast_ofNat] at hwhole
      linarith
  rw [extended, extended, ExtendedMantissa.shiftRightOne, floor_two_mul_half]
  simp only [ExtendedMantissa.mk.injEq, true_and]
  rw [Bool.eq_iff_iff, mul_div_cancel₀ _ (two_ne_zero), decide_eq_true_iff, hmore]
  simp

theorem extended_shiftRight (x : Rat) (n : Nat) : extended x >>> n = extended (x / 2 ^ n) := by
  show n.repeat ExtendedMantissa.shiftRightOne (extended x) = _
  induction n with
  | zero => rw [Nat.repeat, pow_zero, div_one]
  | succ n ih => rw [Nat.repeat, ih, extended_shiftRightOne, div_div, pow_succ]

theorem extended_natCast (n : Nat) : extended n = ⟨n, false, false⟩ := by
  have hfloor : ⌊2 * (n : Rat)⌋₊ = 2 * n := by
    rw [← Nat.cast_ofNat, ← Nat.cast_mul, Nat.floor_natCast]
  rw [extended, hfloor]
  simp

theorem nearest_natCast (n : Nat) : nearest n = n := by
  rw [nearest, extended_natCast]
  rfl

/-- A whole number of halves. The last term is one exactly for a half above an odd number. -/
private theorem nearest_of_halves {x : Rat} (h : (⌊2 * x⌋₊ : Rat) = 2 * x) :
    nearest x = ⌊2 * x⌋₊ / 2 + ⌊2 * x⌋₊ % 2 * (⌊2 * x⌋₊ / 2 % 2) := by
  rw [nearest, extended, decide_eq_false (not_not.mpr h)]
  obtain hmod | hmod := Nat.mod_two_eq_zero_or_one ⌊2 * x⌋₊
  · rw [hmod, zero_mul]
    rfl
  · rw [hmod, one_mul]
    rfl

private theorem nearest_of_not_halves {x : Rat} (h : (⌊2 * x⌋₊ : Rat) ≠ 2 * x) :
    nearest x = (⌊2 * x⌋₊ + 1) / 2 := by
  rw [nearest, extended, decide_eq_true h]
  obtain hmod | hmod := Nat.mod_two_eq_zero_or_one ⌊2 * x⌋₊
  · rw [hmod]
    show ⌊2 * x⌋₊ / 2 = _
    omega
  · rw [hmod]
    show ⌊2 * x⌋₊ / 2 + 1 = _
    omega

private theorem nearest_bounds (x : Rat) : ⌊2 * x⌋₊ / 2 ≤ nearest x ∧ nearest x ≤
    (⌊2 * x⌋₊ + 1) / 2 := by
  by_cases h : (⌊2 * x⌋₊ : Rat) = 2 * x
  · rw [nearest_of_halves h]
    obtain hmod | hmod := Nat.mod_two_eq_zero_or_one ⌊2 * x⌋₊ <;> rw [hmod] <;> omega
  · rw [nearest_of_not_halves h]
    omega

/-- Ties are broken the same way on both sides, so no order is turned around. -/
theorem nearest_le_nearest {x y : Rat} (hx : 0 ≤ x) (h : x ≤ y) : nearest x ≤ nearest y := by
  have hfloor : ⌊2 * x⌋₊ ≤ ⌊2 * y⌋₊ := Nat.floor_mono (by linarith)
  -- With different whole numbers of halves the bounds decide; with the same one only a tie on the
  -- right could round down, and then both are the tie.
  obtain hlt | heq := hfloor.lt_or_eq
  · have := (nearest_bounds x).2
    have := (nearest_bounds y).1
    omega
  · by_cases hy : (⌊2 * y⌋₊ : Rat) = 2 * y
    · have hle : (⌊2 * x⌋₊ : Rat) ≤ 2 * x := Nat.floor_le (by linarith)
      rw [heq, hy] at hle
      rw [le_antisymm h (by linarith)]
    · rw [nearest_of_not_halves hy, ← heq]
      exact (nearest_bounds x).2

/-! ### Places -/

/-- Around a number the doubles lie two to the power of this apart. It stops at the spacing of the
doubles next to zero. -/
def spacing (v : Rat) : Int := max (Int.log 2 v - 52) (-1074)

/-- The place of infinity. It is one step beyond the greatest finite double. -/
def top : Int := 2047 * 2 ^ 52

/-- The place of a mantissa with an exponent: the steps from zero. The exponent counts in blocks of
`2 ^ 52` doubles each. -/
def steps (m : Nat) (e : Int) : Int := (e + 1074) * 2 ^ 52 + m

/-- The place of the double nearest to a number from zero on. -/
def rounded (v : Rat) : Int :=
  if v ≤ 0 then 0 else min (steps (nearest (v / 2 ^ spacing v)) (spacing v)) top

theorem two_zpow_shift {d e : Int} (h : d ≤ e) : (2 : Rat) ^ e = 2 ^ d * 2 ^ (e - d).toNat := by
  rw [← zpow_natCast, ← zpow_add₀ two_ne_zero]
  congr 1
  omega

theorem spacing_le_spacing {v w : Rat} (hv : 0 < v) (h : v ≤ w) : spacing v ≤ spacing w :=
  max_le_max_right _ (Int.sub_le_sub_right (Int.log_mono_right hv h) _)

/-- Measured in steps, a number has at most 53 bits before the point. -/
theorem lt_of_spacing (v : Rat) : v / 2 ^ spacing v < 2 ^ 53 := by
  rw [div_lt_iff₀ (zpow_pos two_pos _)]
  calc v < 2 ^ (Int.log 2 v + 1) := by
        simpa using Int.lt_zpow_succ_log_self (by norm_num : 1 < 2) v
    _ ≤ 2 ^ (53 + spacing v) := zpow_le_zpow_right₀ one_le_two (by rw [spacing]; omega)
    _ = 2 ^ 53 * 2 ^ spacing v := by rw [zpow_add₀ two_ne_zero]; norm_num

/-- And no fewer, unless the doubles lie as near to each other as they can. -/
theorem le_of_spacing {v : Rat} (hv : 0 < v) (h : -1074 < spacing v) :
    2 ^ 52 ≤ v / 2 ^ spacing v := by
  have hlog : spacing v = Int.log 2 v - 52 := by
    rw [spacing] at h ⊢
    omega
  rw [le_div_iff₀ (zpow_pos two_pos _)]
  calc (2 : Rat) ^ 52 * 2 ^ spacing v = 2 ^ (52 + spacing v) := by
        rw [zpow_add₀ two_ne_zero]
        norm_num
    _ ≤ 2 ^ Int.log 2 v := zpow_le_zpow_right₀ one_le_two (by omega)
    _ ≤ v := by simpa using Int.zpow_log_le_self (by norm_num : 1 < 2) hv

theorem le_spacing (v : Rat) : -1074 ≤ spacing v := le_max_right _ _

theorem nearest_le_of_spacing {v : Rat} (hv : 0 < v) : nearest (v / 2 ^ spacing v) ≤ 2 ^ 53 := by
  have h := nearest_le_nearest (div_nonneg hv.le (zpow_pos two_pos _).le) (lt_of_spacing v).le
  have hwhole : nearest (2 ^ 53 : Rat) = 2 ^ 53 := by exact_mod_cast nearest_natCast (2 ^ 53)
  rwa [hwhole] at h

theorem le_nearest_of_spacing {v : Rat} (hv : 0 < v) (h : -1074 < spacing v) :
    2 ^ 52 ≤ nearest (v / 2 ^ spacing v) := by
  have h := nearest_le_nearest (by positivity) (le_of_spacing hv h)
  have hwhole : nearest (2 ^ 52 : Rat) = 2 ^ 52 := by exact_mod_cast nearest_natCast (2 ^ 52)
  rwa [hwhole] at h

theorem rounded_of_pos {v : Rat} (hv : 0 < v) :
    rounded v = min (steps (nearest (v / 2 ^ spacing v)) (spacing v)) top :=
  if_neg hv.not_ge

theorem rounded_zero : rounded 0 = 0 := if_pos le_rfl

theorem steps_nonneg {m : Nat} {e : Int} (h : -1074 ≤ e) : 0 ≤ steps m e := by
  rw [steps]
  omega

theorem rounded_nonneg (v : Rat) : 0 ≤ rounded v := by
  rw [rounded]
  split
  · exact le_rfl
  · exact le_min (steps_nonneg (le_spacing v)) (by decide)

theorem rounded_le_top (v : Rat) : rounded v ≤ top := by
  rw [rounded]
  split
  · decide
  · exact min_le_right _ _

/-- Greater numbers have no smaller place. -/
theorem rounded_le_rounded {v w : Rat} (h : v ≤ w) : rounded v ≤ rounded w := by
  obtain hv | hv := le_or_gt v 0
  · rw [rounded, if_pos hv]
    exact rounded_nonneg w
  have hw := hv.trans_le h
  rw [rounded_of_pos hv, rounded_of_pos hw]
  refine min_le_min_right _ ?_
  obtain hlt | heq := (spacing_le_spacing hv h).lt_or_eq
  · -- The greatest double of one spacing is the least one of the next.
    have hbelow := nearest_le_of_spacing hv
    have habove := le_nearest_of_spacing hw ((le_spacing v).trans_lt hlt)
    rw [steps, steps]
    omega
  · rw [heq]
    have hle : v / 2 ^ spacing w ≤ w / 2 ^ spacing w :=
      div_le_div_of_nonneg_right h (zpow_pos two_pos _).le
    have := nearest_le_nearest (div_nonneg hv.le (zpow_pos two_pos _).le) hle
    rw [steps, steps]
    omega

/-! ### Doubles -/

/-- A mantissa and an exponent as they are read from the bits of a double. The mantissa has all its
bits, unless the exponent is the least one. -/
structure Fits (m : Nat) (e : Int) : Prop where
  pos : 0 < m
  mantissa : m < 2 ^ 53
  least : -1074 ≤ e
  greatest : e ≤ 971
  full : 2 ^ 52 ≤ m ∨ e = -1074

variable {m n : Nat} {d e : Int}

theorem Fits.steps_pos (h : Fits m e) : 0 < steps m e := by
  have := h.pos
  have := h.least
  rw [steps]
  omega

theorem Fits.steps_lt_top (h : Fits m e) : steps m e < top := by
  have := h.mantissa
  have := h.greatest
  rw [steps, top]
  omega

theorem Fits.value_pos (h : Fits m e) : (0 : Rat) < m * 2 ^ e :=
  mul_pos (Nat.cast_pos.mpr h.pos) (zpow_pos two_pos e)

theorem Fits.value_lt (h : Fits m e) : (m * 2 ^ e : Rat) < 2 ^ (53 + e) := by
  rw [zpow_add₀ two_ne_zero]
  exact mul_lt_mul_of_pos_right (by exact_mod_cast h.mantissa) (zpow_pos two_pos e)

theorem le_value_of_le (h : 2 ^ 52 ≤ m) : (2 : Rat) ^ (52 + e) ≤ m * 2 ^ e := by
  rw [zpow_add₀ two_ne_zero]
  exact mul_le_mul_of_nonneg_right (by exact_mod_cast h) (zpow_pos two_pos e).le

/-- The exponent of a double is the spacing of the doubles around it. -/
theorem Fits.spacing_eq (h : Fits m e) : spacing (m * 2 ^ e) = e := by
  have hlt : Int.log 2 ((m : Rat) * 2 ^ e) < 53 + e := by
    rw [← Int.lt_zpow_iff_log_lt (by norm_num) h.value_pos]
    exact_mod_cast h.value_lt
  have hleast := h.least
  rw [spacing]
  obtain hfull | rfl := h.full
  · have hle : 52 + e ≤ Int.log 2 ((m : Rat) * 2 ^ e) := by
      rw [← Int.zpow_le_iff_le_log (by norm_num) h.value_pos]
      exact_mod_cast le_value_of_le hfull
    omega
  · omega

/-- A double is the one nearest to its value. So rounding leaves it where it is. -/
theorem Fits.rounded_eq (h : Fits m e) : rounded (m * 2 ^ e) = steps m e := by
  rw [rounded_of_pos h.value_pos, h.spacing_eq, mul_div_cancel_right₀ _ (zpow_pos two_pos e).ne',
    nearest_natCast, min_eq_left h.steps_lt_top.le]

/-- A greater exponent is farther from zero, whatever the mantissas. -/
theorem Fits.steps_lt_of_exponent (h : Fits m d) (h' : Fits n e) (hlt : d < e) :
    steps m d < steps n e := by
  have := h.mantissa
  have := h.least
  have := h'.full
  rw [steps, steps]
  omega

/-- Doubles of different exponents are a power of two apart. -/
theorem Fits.value_le (h : Fits m d) (h' : Fits n e) (hle : steps m d ≤ steps n e) :
    (m * 2 ^ d : Rat) ≤ n * 2 ^ e := by
  obtain hlt | rfl | hgt := lt_trichotomy d e
  · have hfull : 2 ^ 52 ≤ n := by
      have := h.least
      have := h'.full
      omega
    calc (m * 2 ^ d : Rat) ≤ 2 ^ (53 + d) := h.value_lt.le
      _ ≤ 2 ^ (52 + e) := zpow_le_zpow_right₀ one_le_two (by omega)
      _ ≤ n * 2 ^ e := le_value_of_le hfull
  · have hmantissa : m ≤ n := by
      rw [steps, steps] at hle
      omega
    exact mul_le_mul_of_nonneg_right (by exact_mod_cast hmantissa) (zpow_pos two_pos d).le
  · exact absurd (h'.steps_lt_of_exponent h hgt) hle.not_gt

end

/-! ## The order of the doubles

- **Reading** (`read_fitting`): the mantissa and the exponent in the bits of a double fit.
- **Order** (`le_iff`, `lt_iff`): doubles compare as their places do; an undefined one has no place,
  and compares with nothing. -/

section

open Float.Model (UnpackedFloat)
open Float.Model.UnpackedFloat (Sign)
open Float.Model.Format (binary64)

/-- What the bits of a double say. -/
def read (x : Float) : UnpackedFloat := x.toModel.unpack

/-- A mantissa and an exponent, where there are some, fit. -/
def Fitting : UnpackedFloat → Prop
  | .finite _ m e _ => Fits m e
  | _ => True

/-- The place among all doubles, counted from zero. -/
def place : UnpackedFloat → Option Int
  | .notANumber => none
  | .zero _ => some 0
  | .finite s m e _ => some (s.apply (steps m e))
  | .infinity s => some (s.apply top)

/-! ### Reading -/

/-- A mantissa with the bit that is not stored. -/
theorem toNat_append_one (m : BitVec 52) : (1#1 ++ m).toNat = 2 ^ 52 + m.toNat := by
  rw [BitVec.toNat_append, ← Nat.shiftLeft_add_eq_or_of_lt m.isLt]
  rfl

/-- The exponent that is stored is neither the greatest nor zero here. -/
theorem fits_of_normal {m : BitVec 52} {e : BitVec 11} (hfull : e ≠ -1#11) (hpos : e ≠ 0#11) :
    Fits (1#1 ++ m).toNat ((e.toNat : Int) - 1075) := by
  have hm := m.isLt
  rw [toNat_append_one]
  constructor
  all_goals bv_omega

theorem fits_of_subnormal {m : BitVec 52} (hpos : m ≠ 0#52) : Fits m.toNat (-1074) where
  pos := by bv_omega
  mantissa := m.isLt.trans (by decide)
  least := le_rfl
  greatest := by decide
  full := .inr rfl

theorem Fitting.ite {c : Prop} [Decidable c] {u v : UnpackedFloat} (hu : c → Fitting u)
    (hv : ¬ c → Fitting v) : Fitting (if c then u else v) := by
  by_cases h : c
  · rw [if_pos h]
    exact hu h
  · rw [if_neg h]
    exact hv h

private theorem unpack_fitting (b : BitVec 64) : Fitting (UnpackedFloat.unpack binary64 b) := by
  unfold UnpackedFloat.unpack
  -- The cases are those of the reading: no finite number, an exponent of zero, or a normal one.
  refine .ite (fun _ => .ite (fun _ => trivial) fun _ => trivial) fun hfull =>
    .ite (fun hpos => ?_) fun hpos => fits_of_normal hfull hpos
  by_cases hm : @UnpackedFloat.unpackMantissa binary64 b = 0#52
  · rw [dif_pos hm]
    exact trivial
  · rw [dif_neg hm, hpos]
    exact fits_of_subnormal hm

theorem read_fitting (x : Float) : Fitting (read x) := unpack_fitting _

/-! ### Comparing -/

variable {m n : Nat} {d e : Int}

private theorem compare_steps (h : Fits m d) (h' : Fits n e) :
    (compare d e).then (compare m n) = compare (steps m d) (steps n e) := by
  obtain hlt | rfl | hgt := lt_trichotomy d e
  · rw [Int.compare_eq_lt.mpr hlt, Int.compare_eq_lt.mpr (h.steps_lt_of_exponent h' hlt)]
    rfl
  · rw [Int.compare_eq_eq.mpr rfl, Ordering.eq_then, steps, steps]
    obtain hlt | rfl | hgt := lt_trichotomy m n
    · rw [Nat.compare_eq_lt.mpr hlt, Int.compare_eq_lt.mpr (by omega)]
    · rw [Nat.compare_eq_eq.mpr rfl, Int.compare_eq_eq.mpr rfl]
    · rw [Nat.compare_eq_gt.mpr hgt, Int.compare_eq_gt.mpr (by omega)]
  · rw [Int.compare_eq_gt.mpr hgt, Int.compare_eq_gt.mpr (h'.steps_lt_of_exponent h hgt)]
    rfl

/-- A finite double lies between the infinities. -/
theorem Fits.signed_lt (h : Fits m e) (s : Sign) :
    s.apply (steps m e) < top ∧ -top < s.apply (steps m e) := by
  have := h.steps_lt_top
  have := h.steps_pos
  cases s with
  | positive =>
    show steps m e < top ∧ -top < steps m e
    omega
  | negative =>
    show -steps m e < top ∧ -top < -steps m e
    omega

private theorem compare_neg (a b : Int) : compare (-a) (-b) = (compare a b).swap := by
  rw [Int.compare_swap]
  obtain hlt | rfl | hgt := lt_trichotomy a b
  · rw [Int.compare_eq_gt.mpr hlt, Int.compare_eq_gt.mpr (neg_lt_neg hlt)]
  · rw [Int.compare_eq_eq.mpr rfl, Int.compare_eq_eq.mpr rfl]
  · rw [Int.compare_eq_lt.mpr hgt, Int.compare_eq_lt.mpr (neg_lt_neg hgt)]

/-- Finite doubles of two signs compare by their signs, and of one sign by their steps. -/
private theorem compare_finite {hm : 0 < m} {hn : 0 < n} (h : Fits m d) (h' : Fits n e)
    (s t : Sign) :
    (UnpackedFloat.finite s m d hm).compare (.finite t n e hn) =
      some (compare (s.apply (steps m d)) (t.apply (steps n e))) := by
  have hpos := h.steps_pos
  have hpos' := h'.steps_pos
  cases s with
  | positive =>
    cases t with
    | positive => exact congrArg some (compare_steps h h')
    | negative =>
      exact congrArg some (Int.compare_eq_gt.mpr ((neg_lt_zero.mpr hpos').trans hpos)).symm
  | negative =>
    cases t with
    | positive =>
      exact congrArg some (Int.compare_eq_lt.mpr ((neg_lt_zero.mpr hpos).trans hpos')).symm
    | negative =>
      refine congrArg some ?_
      rw [compare_steps h h']
      exact (compare_neg _ _).symm

/-- Doubles compare as their places do. Zero has one place under both signs. -/
theorem compare_eq {u v : UnpackedFloat} (hu : Fitting u) (hv : Fitting v) :
    u.compare v = (place u).bind fun a => (place v).map fun b => compare a b := by
  cases u with
  | notANumber => rfl
  | zero s =>
    cases v with
    | notANumber | zero t => rfl
    | infinity t => cases t <;> rfl
    | finite t n e hn =>
      have hpos := hv.steps_pos
      cases t with
      | positive => exact congrArg some (Int.compare_eq_lt.mpr hpos).symm
      | negative => exact congrArg some (Int.compare_eq_gt.mpr (neg_lt_zero.mpr hpos)).symm
  | infinity s =>
    cases v with
    | notANumber | zero t => cases s <;> rfl
    | infinity t => cases s <;> cases t <;> rfl
    | finite t n e hn =>
      obtain ⟨hlt, hgt⟩ := Fits.signed_lt hv t
      cases s with
      | positive => exact congrArg some (Int.compare_eq_gt.mpr hlt).symm
      | negative => exact congrArg some (Int.compare_eq_lt.mpr hgt).symm
  | finite s m d hm =>
    cases v with
    | notANumber => cases s <;> rfl
    | zero t =>
      have hpos := hu.steps_pos
      cases s with
      | positive => exact congrArg some (Int.compare_eq_gt.mpr hpos).symm
      | negative => exact congrArg some (Int.compare_eq_lt.mpr (neg_lt_zero.mpr hpos)).symm
    | infinity t =>
      obtain ⟨hlt, hgt⟩ := Fits.signed_lt hu s
      cases t with
      | positive => exact congrArg some (Int.compare_eq_lt.mpr hlt).symm
      | negative => exact congrArg some (Int.compare_eq_gt.mpr hgt).symm
    | finite t n e hn => exact compare_finite hu hv s t

theorem le_iff {x y : Float} :
    x ≤ y ↔ ∃ a b, place (read x) = some a ∧ place (read y) = some b ∧ a ≤ b := by
  have hread : x ≤ y ↔ UnpackedFloat.le (read x) (read y) = true := decide_eq_true_iff
  rw [hread, UnpackedFloat.le, compare_eq (read_fitting x) (read_fitting y)]
  cases place (read x) <;> cases place (read y) <;> simp [Int.isLE_compare]

theorem lt_iff {x y : Float} :
    x < y ↔ ∃ a b, place (read x) = some a ∧ place (read y) = some b ∧ a < b := by
  have hread : x < y ↔ UnpackedFloat.lt (read x) (read y) = true := decide_eq_true_iff
  rw [hread, UnpackedFloat.lt, compare_eq (read_fitting x) (read_fitting y)]
  cases place (read x) <;> cases place (read y) <;> simp [Int.compare_eq_lt]

theorem beq_iff {x y : Float} :
    (x == y) = true ↔ ∃ a, place (read x) = some a ∧ place (read y) = some a := by
  have hread : (x == y) = ((read x).compare (read y) == some .eq) := rfl
  rw [hread, compare_eq (read_fitting x) (read_fitting y)]
  cases place (read x) <;> cases place (read y) <;> simp [@eq_comm Int]

end

end PolicyDesk.Double
