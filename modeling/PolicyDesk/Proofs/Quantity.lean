import Mathlib.Data.Rat.Floor
import PolicyDesk.Quantity

/-!
# Computations with quantities

Which laws the numbers of the desk obey, rounded or exact.
-/

namespace PolicyDesk

/-! ## Monotone quantities

Numbers that are rounded at every step obey few laws of arithmetic, but no rounding turns two of
them around. `MonotoneQuantity` has the laws that are left: the order of the numbers, and that from
zero on a greater argument gives no smaller result.

- **Numbers** (`Quantity.IsNumber`): an undefined result does not compare with itself, and whatever
  is computed from it is undefined too. So the laws speak of results that are numbers.
- **Computations** (`total_le_total`, `hundredths_le_hundredths`, `clamp_le_clamp`): what is put
  together from such operations is monotone. A number is clamped into the bounds (`clamp_mem`).
- **Exact numbers**: the rational numbers are monotone. Doubles are too
  (`PolicyDesk.Proofs.Double.Monotone`). -/

section

open Quantity (whole total hundredths clamp)

/-- A number compares with itself, an undefined result does not. It says so with the order alone, so
that it can be asked of any `Quantity`. -/
def Quantity.IsNumber {α : Type} [Quantity α] (x : α) : Prop := x ≤ x

open Quantity (IsNumber)

/-- Operations that keep the order of the numbers from zero on. Nothing is assumed of the order in
which numbers are added, nor of negative ones. -/
class MonotoneQuantity (α : Type) [Quantity α] : Prop where
  le_trans {x y z : α} : x ≤ y → y ≤ z → x ≤ z
  isNumber_of_le {x y : α} : x ≤ y → IsNumber x ∧ IsNumber y
  lt_or_le {x y : α} : IsNumber x → IsNumber y → x < y ∨ y ≤ x
  le_of_lt {x y : α} : x < y → x ≤ y
  not_le_of_lt {x y : α} : x < y → ¬ y ≤ x
  isNumber_of_add {x y : α} : IsNumber (x + y) → IsNumber x ∧ IsNumber y
  isNumber_of_mul {x y : α} : IsNumber (x * y) → IsNumber x ∧ IsNumber y
  isNumber_of_div {x y : α} : IsNumber (x / y) → IsNumber x ∧ IsNumber y
  isNumber_of_round {x : α} : IsNumber (Quantity.round x) → IsNumber x
  add_le_add {x x' y y' : α} : whole 0 ≤ x → x ≤ x' → whole 0 ≤ y → y ≤ y' →
    whole 0 ≤ x + y ∧ x + y ≤ x' + y'
  mul_le_mul {x x' w : α} : whole 0 ≤ w → whole 0 ≤ x → x ≤ x' → IsNumber (x * w) →
    IsNumber (x' * w) → whole 0 ≤ x * w ∧ x * w ≤ x' * w
  div_le_div {x x' w : α} : whole 0 < w → whole 0 ≤ x → x ≤ x' → IsNumber (x / w) →
    IsNumber (x' / w) → whole 0 ≤ x / w ∧ x / w ≤ x' / w
  round_le_round {x x' : α} : whole 0 ≤ x → x ≤ x' →
    whole 0 ≤ Quantity.round x ∧ Quantity.round x ≤ Quantity.round x'
  /-- A sum starts at negative zero. -/
  zero_le_neg_zero : whole 0 ≤ (-whole 0 : α)
  zero_lt_hundred : whole 0 < (whole 100 : α)

namespace MonotoneQuantity

variable {α : Type} [Quantity α] [MonotoneQuantity α]

/-! ### Sums -/

private theorem isNumber_of_foldl {xs : List α} {start : α}
    (h : IsNumber (xs.foldl (· + ·) start)) :
    IsNumber start := by
  induction xs generalizing start with
  | nil => exact h
  | cons x xs ih => exact (isNumber_of_add (ih h)).1

private theorem foldl_le_foldl {xs ys : List α}
    (h : List.Forall₂ (fun x y => IsNumber x → IsNumber y → whole 0 ≤ x ∧ x ≤ y) xs ys)
    {a b : α} (ha : whole 0 ≤ a) (hab : a ≤ b) (hx : IsNumber (xs.foldl (· + ·) a))
    (hy : IsNumber (ys.foldl (· + ·) b)) :
    whole 0 ≤ xs.foldl (· + ·) a ∧ xs.foldl (· + ·) a ≤ ys.foldl (· + ·) b := by
  -- Both sums start anywhere, since the induction is on the terms still to be added.
  induction h generalizing a b with
  | nil => exact ⟨ha, hab⟩
  | cons hxy _ ih =>
    obtain ⟨hx₀, hle⟩ :=
      hxy (isNumber_of_add (isNumber_of_foldl hx)).2 (isNumber_of_add (isNumber_of_foldl hy)).2
    obtain ⟨hsum, hsums⟩ := add_le_add ha hab hx₀ hle
    exact ih hsum hsums hx hy

/-- A sum of numbers from zero on is monotone in its terms. The terms need to be numbers only where
the sums are. -/
theorem total_le_total {xs ys : List α}
    (h : List.Forall₂ (fun x y => IsNumber x → IsNumber y → whole 0 ≤ x ∧ x ≤ y) xs ys)
    (hx : IsNumber (total xs)) (hy : IsNumber (total ys)) :
    whole 0 ≤ total xs ∧ total xs ≤ total ys :=
  foldl_le_foldl h zero_le_neg_zero (isNumber_of_foldl hx) hx hy

/-! ### Rounding and clamping -/

theorem isNumber_of_hundredths {x : α} (h : IsNumber (hundredths x)) : IsNumber x :=
  (isNumber_of_mul (isNumber_of_round (isNumber_of_div h).1)).1

/-- Rounding to two places is monotone from zero on, like each of its three operations. -/
theorem hundredths_le_hundredths {x y : α} (hx : whole 0 ≤ x) (hxy : x ≤ y)
    (hnx : IsNumber (hundredths x)) (hny : IsNumber (hundredths y)) :
    whole 0 ≤ hundredths x ∧ hundredths x ≤ hundredths y := by
  obtain ⟨hscaled, hle⟩ := mul_le_mul (le_of_lt zero_lt_hundred) hx hxy
    (isNumber_of_round (isNumber_of_div hnx).1) (isNumber_of_round (isNumber_of_div hny).1)
  obtain ⟨hrounded, hle⟩ := round_le_round hscaled hle
  exact div_le_div zero_lt_hundred hrounded hle hnx hny

theorem isNumber_of_clamp {low high x : α} (h : IsNumber (clamp low high x)) : IsNumber x := by
  unfold clamp at h
  split at h
  · rename_i hlt
    exact (isNumber_of_le (le_of_lt hlt)).1
  · split at h
    · rename_i hlt
      exact (isNumber_of_le (le_of_lt hlt)).2
    · exact h

/-- A number is clamped into the bounds. What is no number compares with neither bound and so would
stay where it is. -/
theorem clamp_mem {low high x : α} (hbounds : low ≤ high) (hx : IsNumber x) :
    low ≤ clamp low high x ∧ clamp low high x ≤ high := by
  obtain ⟨hlow, hhigh⟩ := isNumber_of_le hbounds
  unfold clamp
  split
  · exact ⟨hlow, hbounds⟩
  · rename_i hbelow
    split
    · exact ⟨hbounds, hhigh⟩
    · rename_i habove
      exact ⟨(lt_or_le hx hlow).resolve_left hbelow, (lt_or_le hhigh hx).resolve_left habove⟩

/-- Clamping from zero on is monotone. The upper bound may cut both numbers or only the greater one.
-/
theorem clamp_le_clamp {high x y : α} (hhigh : whole 0 ≤ high) (hx : whole 0 ≤ x) (hxy : x ≤ y) :
    clamp (whole 0) high x ≤ clamp (whole 0) high y := by
  have hy := le_trans hx hxy
  have hnumber := (isNumber_of_le hhigh).2
  rw [clamp, if_neg fun hlt => not_le_of_lt hlt hx, clamp, if_neg fun hlt => not_le_of_lt hlt hy]
  split
  · rename_i hlt
    rw [if_pos]
    · exact hnumber
    · obtain hlt' | hle := lt_or_le hnumber (isNumber_of_le hxy).2
      · exact hlt'
      · exact absurd (le_trans hxy hle) (not_le_of_lt hlt)
  · rename_i hlt
    split
    · exact (lt_or_le hnumber (isNumber_of_le hxy).1).resolve_left hlt
    · exact hxy

end MonotoneQuantity

/-! ### Exact numbers -/

namespace Quantity

theorem roundRat_of_nonneg {q : Rat} (h : 0 ≤ q) : roundRat q = ((q + 1 / 2).floor : Rat) :=
  if_neg (not_lt.mpr h)

theorem whole_rat (n : Nat) : (whole n : Rat) = n := by
  show (n : Rat) / (10 : Rat) ^ 0 = n
  rw [pow_zero, div_one]

theorem whole_zero_rat : (whole 0 : Rat) = 0 := whole_rat 0

end Quantity

open Quantity (roundRat roundRat_of_nonneg whole_rat whole_zero_rat)

instance : MonotoneQuantity Rat where
  le_trans h h' := h.trans h'
  isNumber_of_le _ := ⟨le_refl _, le_refl _⟩
  lt_or_le _ _ := lt_or_ge _ _
  le_of_lt h := h.le
  not_le_of_lt h := h.not_ge
  isNumber_of_add _ := ⟨le_refl _, le_refl _⟩
  isNumber_of_mul _ := ⟨le_refl _, le_refl _⟩
  isNumber_of_div _ := ⟨le_refl _, le_refl _⟩
  isNumber_of_round _ := le_refl _
  add_le_add hx hxx' hy hyy' := by
    rw [whole_zero_rat] at *
    exact ⟨add_nonneg hx hy, add_le_add hxx' hyy'⟩
  mul_le_mul hw hx hxx' _ _ := by
    rw [whole_zero_rat] at *
    exact ⟨mul_nonneg hx hw, mul_le_mul_of_nonneg_right hxx' hw⟩
  div_le_div hw hx hxx' _ _ := by
    rw [whole_zero_rat] at *
    exact ⟨div_nonneg hx hw.le, div_le_div_of_nonneg_right hxx' hw.le⟩
  round_le_round {x x'} hx hxx' := by
    rw [whole_zero_rat] at *
    show 0 ≤ roundRat x ∧ roundRat x ≤ roundRat x'
    rw [roundRat_of_nonneg hx, roundRat_of_nonneg (hx.trans hxx')]
    have hhalf : (0 : Rat) ≤ x + 1 / 2 := add_nonneg hx (by norm_num)
    refine ⟨Int.cast_nonneg (Rat.le_floor_iff.mpr (by simpa using hhalf)), ?_⟩
    exact Int.cast_le.mpr (Rat.floor_monotone (add_le_add_left hxx' _))
  zero_le_neg_zero := by rw [whole_zero_rat, neg_zero]
  zero_lt_hundred := by
    rw [whole_zero_rat, whole_rat]
    norm_num

end

/-! ## Exact numbers in hundredths

Of the operations on exact numbers only `hundredths` rounds.

- **Whole numbers** (`lt_hundredths_iff`, `le_hundredths_iff`): in hundredths a number is above a
  whole one from half a hundredth above it on.
- **Error** (`abs_hundredths_sub_le`): rounding moves a number by half a hundredth at most, and
  `abs_sum_sub_sum_le` adds such errors up.
- **Sums** (`total_rat`): the order in which exact numbers are added makes no difference. -/

section

open Quantity (whole total hundredths whole_rat whole_zero_rat roundRat roundRat_of_nonneg)

/-! ### Rounding -/

theorem hundredths_of_nonneg {x : Rat} (hx : 0 ≤ x) :
    hundredths x = ((x * 100 + 1 / 2).floor : Rat) / 100 := by
  have hscaled : 0 ≤ x * 100 := mul_nonneg hx (by norm_num)
  show roundRat (x * whole 100) / whole 100 = _
  rw [whole_rat, Nat.cast_ofNat, roundRat_of_nonneg hscaled]

/-- In hundredths a number is above a whole one from half a hundredth above it on. A half goes up,
so half a hundredth above is enough. -/
theorem lt_hundredths_iff {x : Rat} (hx : 0 ≤ x) (n : Nat) :
    n < hundredths x ↔ n + 1 / 200 ≤ x := by
  have hfloor : n < hundredths x ↔ (n * 100 : Int) < (x * 100 + 1 / 2).floor := by
    rw [hundredths_of_nonneg hx, lt_div_iff₀ (by norm_num)]
    exact_mod_cast Iff.rfl
  -- The floor is above a whole number as soon as it reaches the next one.
  rw [hfloor, Int.lt_iff_add_one_le, Rat.le_floor_iff]
  push_cast
  constructor <;> intro h <;> linarith

/-- It reaches a whole number from half a hundredth below it on. -/
theorem le_hundredths_iff {x : Rat} (hx : 0 ≤ x) (n : Nat) :
    n ≤ hundredths x ↔ n - 1 / 200 ≤ x := by
  have hfloor : n ≤ hundredths x ↔ (n * 100 : Int) ≤ (x * 100 + 1 / 2).floor := by
    rw [hundredths_of_nonneg hx, le_div_iff₀ (by norm_num)]
    exact_mod_cast Iff.rfl
  rw [hfloor, Rat.le_floor_iff]
  push_cast
  constructor <;> intro h <;> linarith

theorem hundredths_nonneg {x : Rat} (hx : 0 ≤ x) : 0 ≤ hundredths x := by
  have hzero := (le_hundredths_iff hx 0).mpr
  rw [Nat.cast_zero] at hzero
  apply hzero
  linarith

theorem hundredths_le_natCast {x : Rat} (hx : 0 ≤ x) {n : Nat} (hle : x ≤ n) :
    hundredths x ≤ n := by
  by_contra hlt
  have habove := (lt_hundredths_iff hx n).mp (not_le.mp hlt)
  linarith

theorem hundredths_mono {x y : Rat} (hx : 0 ≤ x) (h : x ≤ y) : hundredths x ≤ hundredths y :=
  (MonotoneQuantity.hundredths_le_hundredths (whole_zero_rat ▸ hx) h le_rfl le_rfl).2

/-! ### Errors -/

/-- Rounding moves a number by half a hundredth at most. The number is scaled by a hundred, rounded
to a whole one and scaled back. -/
theorem abs_hundredths_sub_le {x : Rat} (hx : 0 ≤ x) : |hundredths x - x| ≤ 1 / 200 := by
  rw [hundredths_of_nonneg hx, abs_le]
  have hbelow := Rat.floor_le (x * 100 + 1 / 2)
  have habove := Rat.lt_floor_add_one (x * 100 + 1 / 2)
  push_cast at habove
  constructor <;> linarith

/-- Errors of the terms add up. It is used of the shares of a score, each of which is rounded alone.
-/
theorem abs_sum_sub_sum_le {β : Type} {xs : List β} {v w : β → Rat} {δ : Rat}
    (h : ∀ x ∈ xs, |v x - w x| ≤ δ) :
    |(xs.map v).sum - (xs.map w).sum| ≤ xs.length * δ := by
  induction xs with
  | nil => simp
  | cons x xs ih =>
    have hfirst := h x List.mem_cons_self
    have hrest := ih fun y hy => h y (List.mem_cons_of_mem x hy)
    rw [abs_le] at *
    simp only [List.map_cons, List.sum_cons, List.length_cons]
    push_cast
    constructor <;> linarith

/-! ### Sums -/

theorem total_rat (xs : List Rat) : total xs = xs.sum := by
  rw [total, whole_zero_rat, neg_zero, List.sum_eq_foldl]

end

end PolicyDesk
