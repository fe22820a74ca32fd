import PolicyDesk.Evaluation
import PolicyDesk.Proofs.Double.Monotone

/-!
# Bounded doubles

Which computed doubles are finite, and that those of an evaluation are.
-/

namespace PolicyDesk.Double

/-! ## Bounds of computed doubles

A double from zero on that is no greater than a bound is finite (`AtMost`). When the bound of an
exact result is itself a double, rounding does not step over it (`atMost_of_place`).

- **Sums** (`le_total_of_mem`, `AtMost.total`): a sum of doubles from zero on is no smaller than
  each of them, and at most so many times their bound.
- **Operations** (`AtMost.mul`, `AtMost.div`, `AtMost.hundredths`): bounds of products, quotients
  and of what is rounded to hundredths, which is a number in any case (`FromZero.hundredths`).
- **Shares** (`atMost_share`): the share of a weight in a total that is no smaller has a bound, no
  matter how small the total is. -/

section

open Float.Model (UnpackedFloat)
open Quantity (whole total hundredths)

variable {x y s w : Float} {p q : Rat} {n : Nat}

/-- The double is from zero on, finite, and no greater than the bound. The bound is an exact number,
and need not be a double. -/
def AtMost (x : Float) (q : Rat) : Prop := ∃ p, IsValue (read x) p ∧ p ≤ q

theorem IsValue.isFinite {u : UnpackedFloat} (h : IsValue u p) : u.isFinite = true := by
  cases h <;> rfl

theorem AtMost.isFinite (h : AtMost x q) : x.isFinite = true := by
  obtain ⟨p, hp, -⟩ := h
  exact hp.isFinite

theorem AtMost.mono (h : AtMost x p) (hle : p ≤ q) : AtMost x q := by
  obtain ⟨r, hr, hrp⟩ := h
  exact ⟨r, hr, hrp.trans hle⟩

theorem isValue_hundred : IsValue (read (whole 100)) (100 : Nat) :=
  isValue_of_read (m := 25 * 2 ^ 48) (e := -46) (by decide) rfl (by norm_num)

theorem isValue_whole_zero : IsValue (read (whole 0)) 0 := .zero .positive

theorem isValue_whole_one : IsValue (read (whole 1)) 1 :=
  isValue_of_read (m := 2 ^ 52) (e := -52) (by decide) rfl (by norm_num)

theorem atMost_hundred (hx : whole 0 ≤ x) (hle : x ≤ whole 100) : AtMost x (100 : Nat) :=
  isValue_of_le hx hle isValue_hundred

theorem atMost_one (hx : whole 0 ≤ x) (hle : x ≤ whole 1) : AtMost x 1 :=
  isValue_of_le hx hle isValue_whole_one

theorem exact_natCast (h : n < 2 ^ 53) : Exact n := by
  have hexact : Exact (n * 2 ^ (0 : Int)) := exact_of_mantissa h (by decide) (by decide)
  rwa [zpow_zero, mul_one] at hexact

/-- Rounding does not step over a double. A result that is exactly below a double is rounded to that
double at most. -/
theorem atMost_of_place (h : place (read x) = some (rounded p)) (hq : Exact q) (hle : p ≤ q) :
    AtMost x q := by
  obtain ⟨u, hu, hvalue⟩ := hq
  have hrounded := rounded_le_rounded hle
  obtain ⟨r, hr⟩ | hinf := fromZero_of_place h
  · exact ⟨r, hr, hr.le_of_place hvalue (read_fitting x) hu h (hvalue.place_eq hu) hrounded⟩
  · rw [hinf] at h
    obtain heq : top = rounded p := Option.some.inj h
    have := hvalue.rounded_lt_top hu
    omega

/-! ### Sums -/

private theorem operands_le_add (hx : whole 0 ≤ x) (hy : whole 0 ≤ y) : x ≤ x + y ∧ y ≤ x + y := by
  obtain ⟨p, q, hp, hq⟩ | hinf := sum_cases (fromZero_of_le hx) (fromZero_of_le hy)
  · have hsum := place_kept_add hp hq (read_fitting x) (read_fitting y)
    have hle := rounded_le_rounded (le_add_of_nonneg_right hq.nonneg : p ≤ p + q)
    have hle' := rounded_le_rounded (le_add_of_nonneg_left hp.nonneg : q ≤ p + q)
    exact ⟨le_iff.mpr ⟨_, _, hp.place_eq (read_fitting x), hsum, hle⟩,
      le_iff.mpr ⟨_, _, hq.place_eq (read_fitting y), hsum, hle'⟩⟩
  · have hsum := read_add_eq_infinity hinf
    exact ⟨(ordered_of_infinity (fromZero_of_le hx) hsum).2,
      (ordered_of_infinity (fromZero_of_le hy) hsum).2⟩

/-- Adding keeps a sum no smaller than where it starts and than what is added. -/
private theorem le_foldl {xs : List Float} (hs : whole 0 ≤ s) (hxs : ∀ x ∈ xs, whole 0 ≤ x) :
    s ≤ xs.foldl (· + ·) s ∧ ∀ x ∈ xs, x ≤ xs.foldl (· + ·) s := by
  induction xs generalizing s with
  | nil => exact ⟨(MonotoneQuantity.isNumber_of_le hs).2, fun x hx => nomatch hx⟩
  | cons y ys ih =>
    obtain ⟨hstart, hy⟩ := operands_le_add hs (hxs y List.mem_cons_self)
    obtain ⟨hnext, hrest⟩ := ih (double_le_trans hs hstart)
      fun x hx => hxs x (List.mem_cons_of_mem y hx)
    refine ⟨double_le_trans hstart hnext, fun x hx => ?_⟩
    obtain rfl | hx := List.mem_cons.mp hx
    · exact double_le_trans hy hnext
    · exact hrest x hx

theorem le_total_of_mem {xs : List Float} (hxs : ∀ x ∈ xs, whole 0 ≤ x) (hx : x ∈ xs) :
    x ≤ total xs :=
  (le_foldl MonotoneQuantity.zero_le_neg_zero hxs).2 x hx

theorem AtMost.add (hx : AtMost x p) (hy : AtMost y q) (hexact : Exact (p + q)) :
    AtMost (x + y) (p + q) := by
  obtain ⟨a, ha, hap⟩ := hx
  obtain ⟨b, hb, hbq⟩ := hy
  exact atMost_of_place (place_kept_add ha hb (read_fitting x) (read_fitting y)) hexact
    (add_le_add hap hbq)

theorem AtMost.foldl {xs : List Float} {k : Nat} (hs : AtMost s k) (hxs : ∀ x ∈ xs, AtMost x n)
    (hlt : k + xs.length * n < 2 ^ 53) :
    AtMost (xs.foldl (· + ·) s) (k + xs.length * n : Nat) := by
  induction xs generalizing s k with
  | nil => simpa using hs
  | cons y ys ih =>
    obtain ⟨hy, hys⟩ := List.forall_mem_cons.mp hxs
    -- The bound grows by `n` with each term, and stays a double on the way.
    have hcount : k + (y :: ys).length * n = k + n + ys.length * n := by
      rw [List.length_cons]
      ring
    rw [hcount] at hlt ⊢
    have hsum : AtMost (s + y) (k + n : Nat) := by
      rw [Nat.cast_add]
      exact hs.add hy (by exact_mod_cast exact_natCast (by omega : k + n < 2 ^ 53))
    exact ih hsum hys hlt

/-- A sum of so many doubles is at most so many times their bound. -/
theorem AtMost.total {xs : List Float} (hxs : ∀ x ∈ xs, AtMost x n)
    (hlt : xs.length * n < 2 ^ 53) : AtMost (total xs) (xs.length * n : Nat) := by
  have hzero : AtMost (-whole 0) (0 : Nat) := ⟨0, .zero .negative, le_rfl⟩
  have hsum := hzero.foldl hxs (by omega)
  rwa [zero_add] at hsum

/-! ### Operations -/

/-- The product of the bounds must be a double, or rounding might step over it. -/
theorem AtMost.mul (hx : AtMost x p) (hy : AtMost y q) (hexact : Exact (p * q)) :
    AtMost (x * y) (p * q) := by
  obtain ⟨a, ha, hap⟩ := hx
  obtain ⟨b, hb, hbq⟩ := hy
  exact atMost_of_place (place_kept_mul ha hb (read_fitting x) (read_fitting y)) hexact
    (mul_le_mul hap hbq hb.nonneg (ha.nonneg.trans hap))

theorem AtMost.div (hx : AtMost x p) (hy : IsValue (read y) q) (hpos : 0 < q) (hn : n < 2 ^ 53)
    (hle : p ≤ n * q) : AtMost (x / y) n := by
  obtain ⟨a, ha, hap⟩ := hx
  refine atMost_of_place (place_kept_div ha hy hpos) (exact_natCast hn) ?_
  rw [div_le_iff₀ hpos]
  exact hap.trans hle

theorem AtMost.round (hx : AtMost x n) (hn : n < 2 ^ 52) : AtMost (Quantity.round x) n := by
  obtain ⟨a, ha, hle⟩ := hx
  have hwhole : wholeValue n = n := by
    have hfloor : ⌊(n : Rat) + 1 / 2⌋₊ = n := by
      rw [Nat.floor_eq_iff (by positivity)]
      constructor <;> linarith
    rw [wholeValue, if_pos (by exact_mod_cast hn), hfloor]
  exact ⟨_, isValue_round ha, hwhole ▸ wholeValue_le_wholeValue hle⟩

theorem AtMost.hundredths (hx : AtMost x n) (hn : n * 100 < 2 ^ 52) : AtMost (hundredths x) n := by
  have hscaled : AtMost (x * whole 100) (n * 100 : Nat) := by
    rw [Nat.cast_mul]
    refine hx.mul ⟨_, isValue_hundred, le_rfl⟩ ?_
    exact_mod_cast exact_natCast (hn.trans (by decide))
  refine (hscaled.round hn).div isValue_hundred (by norm_num) (by omega) ?_
  exact_mod_cast le_rfl

/-- From zero on, rounding to hundredths has a result, be it infinite. The scaled number may be
infinite, and is so in hundredths too. -/
theorem FromZero.hundredths (h : FromZero (read x)) : FromZero (read (hundredths x)) := by
  have hscaled : FromZero (read (x * whole 100)) := by
    obtain ⟨p, hp⟩ | hinf := h
    · exact fromZero_of_place
        (place_kept_mul hp isValue_hundred (read_fitting x) (read_fitting (whole 100)))
    · refine .inr ?_
      have hread : read (x * whole 100) =
        kept (UnpackedFloat.mul .binary64 (read x) (read (whole 100))) := rfl
      rw [hread, hinf]
      rfl
  obtain ⟨p, hp⟩ | hinf := hscaled
  · exact fromZero_of_place (place_kept_div (isValue_round hp) isValue_hundred (by norm_num))
  · have hround : read (Quantity.round (x * whole 100)) = .infinity .positive := by
      rw [round_of_infinity hinf, hinf]
    exact .inr (read_div_eq_infinity hround isValue_hundred (by norm_num))

theorem FromZero.isNumber (h : FromZero (read x)) : Quantity.IsNumber x := by
  obtain ⟨p, hp⟩ | hinf := h
  · exact isNumber_iff.mpr ⟨_, hp.place_eq (read_fitting x)⟩
  · exact isNumber_iff.mpr ⟨top, by rw [hinf]; rfl⟩

/-! ### Shares -/

/-- Seven more bits before the point leave a small double a double. -/
private theorem IsValue.exact_scaled {u : UnpackedFloat} (h : IsValue u p) (hu : Fitting u)
    (hle : p ≤ 1) :
    Exact (128 * p) := by
  cases h with
  | zero t =>
    rw [mul_zero]
    exact ⟨.zero t, trivial, .zero t⟩
  | finite m e hm =>
    have he : e ≤ 0 := by
      by_contra hpos
      have hpow : (2 : Rat) ^ (1 : Int) ≤ 2 ^ e := zpow_le_zpow_right₀ one_le_two (by omega)
      have hone : (1 : Rat) ≤ m := by exact_mod_cast hm
      rw [zpow_one] at hpow
      nlinarith
    have hscaled : (128 * (m * 2 ^ e) : Rat) = m * 2 ^ (e + 7) := by
      rw [zpow_add₀ two_ne_zero]
      norm_num
      ring
    have hfits : Fits m e := hu
    have := hfits.least
    rw [hscaled]
    exact exact_of_mantissa hfits.mantissa (by omega) (by omega)

/-- A score is at most 128, and 128 times a weight is a double; so the product does not step over
it, and divided by a total that is no smaller than the weight it is at most 128 again. -/
private theorem atMost_share (hx : AtMost x (128 : Nat)) (hw : AtMost w 1) (hpos : whole 0 < s)
    (hws : w ≤ s) : AtMost (x * w / s) (128 : Nat) := by
  obtain ⟨p, hp, hle⟩ := hw
  -- The bound 128 is a power of two, so the product of the bounds is a double.
  have hproduct : AtMost (x * w) (128 * p) :=
    AtMost.mul (by exact_mod_cast hx) ⟨p, hp, le_rfl⟩ (hp.exact_scaled (read_fitting w) hle)
  obtain ⟨q, hq, hpos⟩ | hinf := value_or_infinity_of_pos hpos
  · refine hproduct.div hq hpos (by decide) ?_
    have hpq : p ≤ q := by
      obtain ⟨a, b, ha, hb, hab⟩ := le_iff.mp hws
      exact hp.le_of_place hq (read_fitting w) (read_fitting s) ha hb hab
    push_cast
    linarith
  · obtain ⟨r, hr, -⟩ := hproduct
    refine atMost_of_place (p := 0) ?_ (exact_natCast (by decide)) (by positivity)
    rw [rounded_zero, place_value_div_infinity hr hinf]

end

end PolicyDesk.Double

namespace PolicyDesk

/-! ## The numbers of an evaluation

Every number of an evaluation is finite (`EvaluationConfig.finite_evaluate`). The scores and weights
are those of the assessment; what is computed is the share of each factor (`contribution_atMost`),
and a tiny total weight does not make it too large, since no weight is greater than the total
(`weight_le_totalWeight`). -/

section

open Double (AtMost atMost_hundred atMost_one atMost_share)
open Quantity (whole)

/-! ### Shares -/

private theorem weight_le_totalWeight {fs : List (Factor Float)} {f : Factor Float} (hf : f ∈ fs) :
    f.weight.value ≤ totalWeight fs := by
  refine Double.le_total_of_mem (fun x hx => ?_) (List.mem_map_of_mem hf)
  obtain ⟨g, -, rfl⟩ := List.mem_map.mp hx
  exact g.weight.inRange.2.1

/-- A share is rounded, but never far above a score. -/
theorem contribution_atMost {fs : List (Factor Float)} {f : Factor Float} (hf : f ∈ fs) :
    AtMost (contribution (totalWeight fs) f) (128 : Nat) := by
  unfold contribution
  split
  · rename_i hpos
    have hscore : AtMost f.score.value (100 : Nat) :=
      atMost_hundred f.score.inRange.2.1 f.score.inRange.2.2
    have hweight : AtMost f.weight.value 1 :=
      atMost_one f.weight.inRange.2.1 f.weight.inRange.2.2
    exact (atMost_share (hscore.mono (by norm_num)) hweight hpos
      (weight_le_totalWeight hf)).hundredths (by decide)
  · exact ⟨0, .zero .positive, by positivity⟩

/-! ### Outcomes -/

/-- The numbers of the component are finite. -/
structure ScoreComponent.Finite (c : ScoreComponent Float) : Prop where
  score : c.score.isFinite = true
  weight : c.weight.isFinite = true
  contribution : c.contribution.isFinite = true

/-- The numbers of the outcome are finite. -/
structure EvaluationOutcome.Finite (o : EvaluationOutcome Float) : Prop where
  riskScore : o.riskScore.isFinite = true
  components : ∀ c ∈ o.components, c.Finite

/-- The scores and weights are finite as they are in range. -/
theorem EvaluationConfig.finite_evaluate (config : EvaluationConfig Float) (a : Assessment Float) :
    (config.evaluate a).Finite where
  riskScore := a.riskScore.inRange.1
  components c hc := by
    obtain ⟨f, hf, rfl⟩ := List.mem_map.mp hc
    exact ⟨f.score.inRange.1, f.weight.inRange.1, (contribution_atMost hf).isFinite⟩

end

end PolicyDesk
