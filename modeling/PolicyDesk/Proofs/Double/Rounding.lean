import PolicyDesk.Proofs.Double.Grid

/-!
# Rounding

The operations on doubles compute an exact result, or enough of it, and round it
(`roundWithAccuracy`).

- **Keeping** (`kept_finite`): what fits is kept in the bits of a double; what is too large is kept
  as infinity.
- **Rounding** (`place_kept_roundWithAccuracy`): the result is the double nearest to the exact one,
  provided that not too much was left out before.
-/

namespace PolicyDesk.Double

open Float.Model (UnpackedFloat totalExponent)
open Float.Model.UnpackedFloat (Sign Accuracy ExtendedMantissa packComponents packedInfinity
  unpackSign unpackExponent_packComponents unpackMantissa_packComponents shiftToExponent
  shiftToTargetExponent roundWithAccuracy)
open Float.Model.Format (binary64)

/-! ## Keeping -/

/-- What is read again once it was written to bits. A double is written to its bits after every
operation. -/
def kept (u : UnpackedFloat) : UnpackedFloat := (Float.Model.pack u).unpack

variable {m n : Nat} {e : Int}

private theorem ofBitVec_unpackSign {f : Float.Model.Format} (s : Sign) (e : BitVec f.exponentBits)
    (m : BitVec f.mantissaBitsWithoutImplicit) :
    Sign.ofBitVec (unpackSign (packComponents f s e m)) = s := by
  have hsign : unpackSign (packComponents f s e m) = s.toBitVec := by
    apply BitVec.eq_of_getLsbD_eq
    intro i hi
    obtain rfl : i = 0 := by omega
    show ((packComponents f s e m).extractLsb _ _ |>.cast _).getLsbD 0 = _
    simp [packComponents, BitVec.getLsbD_append, BitVec.getElem_append]
  rw [hsign]
  cases s <;> rfl

private theorem finite_congr {s t : Sign} {d : Int} {hm : 0 < m} {hn : 0 < n} (hs : s = t)
    (h : m = n)
    (he : d = e) : UnpackedFloat.finite s m d hm = .finite t n e hn := by
  subst hs h he
  rfl

private theorem unpack_normal (s : Sign) {e : BitVec 11} (m : BitVec 52) (hfull : e ≠ -1#11)
    (hpos : e ≠ 0#11) :
    UnpackedFloat.unpack binary64 (packComponents binary64 s e m) =
      .finite s (1#1 ++ m).toNat ((e.toNat : Int) - 1075) (fits_of_normal hfull hpos).pos := by
  have he : UnpackedFloat.unpackExponent (packComponents binary64 s e m) = e :=
    unpackExponent_packComponents ..
  unfold UnpackedFloat.unpack
  rw [if_neg (by rwa [he]), if_neg (by rwa [he])]
  refine finite_congr (ofBitVec_unpackSign ..) ?_ ?_
  · rw [unpackMantissa_packComponents]
  · rw [he]
    rfl

private theorem unpack_subnormal (s : Sign) {m : BitVec 52} (hpos : m ≠ 0#52) :
    UnpackedFloat.unpack binary64 (packComponents binary64 s 0#11 m) =
      .finite s m.toNat (-1074) (fits_of_subnormal hpos).pos := by
  have he : UnpackedFloat.unpackExponent (packComponents binary64 s 0#11 m) = 0#11 :=
    unpackExponent_packComponents ..
  have hm : UnpackedFloat.unpackMantissa (packComponents binary64 s 0#11 m) = m :=
    unpackMantissa_packComponents ..
  unfold UnpackedFloat.unpack
  rw [if_neg (by rw [he]; decide), if_pos he, dif_neg (by rwa [hm])]
  refine finite_congr (ofBitVec_unpackSign ..) ?_ ?_
  · rw [hm]
  · rw [he]
    rfl

/-- A mantissa of full length is stored without its first bit, and its exponent above zero. -/
private theorem pack_normal (h : Fits m e) (hm : 2 ^ 52 ≤ m) (s : Sign) :
    UnpackedFloat.pack binary64 (.finite s m e h.pos) =
      packComponents binary64 s (BitVec.ofNat 11 (e + 1075).toNat) (BitVec.ofNat 52 m) := by
  have hgreatest := h.greatest
  have hlog : m.log2 = 52 := (Nat.log2_eq_iff h.pos.ne').mpr ⟨hm, h.mantissa⟩
  have hexponent : e + (1023 : Nat) + (52 : Nat) = e + 1075 := by omega
  unfold UnpackedFloat.pack
  dsimp only
  rw [hlog, if_neg, if_pos (show 52 + 1 = binary64.mantissaBits from rfl)]
  · exact congrArg (fun t : Int => packComponents binary64 s (BitVec.ofNat 11 t.toNat) _) hexponent
  · show ¬ 2048 ≤ (e + (1023 : Nat) + (52 : Nat)).toNat + 1
    omega

private theorem pack_subnormal (h : Fits m (-1074)) (hm : m < 2 ^ 52) (s : Sign) :
    UnpackedFloat.pack binary64 (.finite s m (-1074) h.pos) =
      packComponents binary64 s 0#11 (BitVec.ofNat 52 m) := by
  have hlog : m.log2 < 52 := (Nat.log2_lt h.pos.ne').mpr hm
  have hshort : ¬ m.log2 + 1 = binary64.mantissaBits := by
    show ¬ m.log2 + 1 = 53
    omega
  unfold UnpackedFloat.pack
  dsimp only
  rw [if_neg (by decide), if_neg hshort]

private theorem pack_of_too_large (he : 971 < e) (s : Sign) (hpos : 0 < m) :
    UnpackedFloat.pack binary64 (.finite s m e hpos) = packedInfinity binary64 s := by
  unfold UnpackedFloat.pack
  dsimp only
  rw [if_pos]
  show 2048 ≤ (e + (1023 : Nat) + (52 : Nat)).toNat + 1
  omega

/-- The bits of a double say what was written to them. -/
theorem kept_finite (h : Fits m e) (s : Sign) :
    kept (.finite s m e h.pos) = .finite s m e h.pos := by
  have hleast := h.least
  have hgreatest := h.greatest
  have hlt := h.mantissa
  show UnpackedFloat.unpack binary64 (UnpackedFloat.pack binary64 _) = _
  -- A mantissa of full length is stored without its first bit, and a shorter one whole.
  obtain hm | hm := le_or_gt (2 ^ 52) m
  · have he : (BitVec.ofNat 11 (e + 1075).toNat).toNat = (e + 1075).toNat := by
      rw [BitVec.toNat_ofNat, Nat.mod_eq_of_lt (by omega)]
    have hm' : (1#1 ++ BitVec.ofNat 52 m).toNat = m := by
      rw [toNat_append_one, BitVec.toNat_ofNat]
      omega
    rw [pack_normal h hm, unpack_normal]
    · exact finite_congr rfl hm' (by omega)
    · intro hfull
      have hbits := he.symm.trans (congrArg BitVec.toNat hfull)
      rw [show (-1#11).toNat = 2047 from rfl] at hbits
      omega
    · intro hzero
      have hbits := he.symm.trans (congrArg BitVec.toNat hzero)
      rw [show (0#11).toNat = 0 from rfl] at hbits
      omega
  · obtain rfl : e = -1074 := h.full.resolve_left hm.not_ge
    have hm' : (BitVec.ofNat 52 m).toNat = m := by rw [BitVec.toNat_ofNat, Nat.mod_eq_of_lt hm]
    have hpos : BitVec.ofNat 52 m ≠ 0#52 := by
      intro hzero
      have := h.pos
      rw [← hm', hzero] at this
      exact absurd this (lt_irrefl 0)
    rw [pack_subnormal h hm, unpack_subnormal s hpos]
    exact finite_congr rfl hm' rfl

private theorem kept_of_too_large (he : 971 < e) (s : Sign) (hpos : 0 < m) :
    kept (.finite s m e hpos) = .infinity s := by
  show UnpackedFloat.unpack binary64 (UnpackedFloat.pack binary64 _) = _
  rw [pack_of_too_large he]
  cases s <;> rfl

/-! ## Rounding -/

theorem targetExponent_eq (t : Int) : binary64.targetExponent t = max (t - 53) (-1074) := rfl

theorem log_mul_zpow {x : Rat} (hx : 0 < x) (e : Int) :
    Int.log 2 (x * 2 ^ e) = Int.log 2 x + e := by
  have hpos : 0 < x * 2 ^ e := mul_pos hx (zpow_pos two_pos e)
  have hbelow : (2 : Rat) ^ Int.log 2 x ≤ x := by
    exact_mod_cast Int.zpow_log_le_self (by norm_num) hx
  have habove : x < (2 : Rat) ^ (Int.log 2 x + 1) := by
    exact_mod_cast Int.lt_zpow_succ_log_self (by norm_num) x
  apply le_antisymm
  · apply Int.le_of_lt_add_one
    rw [← Int.lt_zpow_iff_log_lt (by norm_num) hpos, Nat.cast_ofNat, add_right_comm,
      zpow_add₀ two_ne_zero]
    exact mul_lt_mul_of_pos_right habove (zpow_pos two_pos e)
  · rw [← Int.zpow_le_iff_le_log (by norm_num) hpos, Nat.cast_ofNat, zpow_add₀ two_ne_zero]
    exact mul_le_mul_of_nonneg_right hbelow (zpow_pos two_pos e).le

/-- A number of 53 bits before the point has at least that spacing. -/
theorem le_spacing_of_le {v : Rat} (h : (2 : Rat) ^ (52 + e) ≤ v) : e ≤ spacing v := by
  have hlog : 52 + e ≤ Int.log 2 v := by
    rw [← Int.zpow_le_iff_le_log (by norm_num) ((zpow_pos two_pos _).trans_le h)]
    exact_mod_cast h
  rw [spacing]
  omega

theorem extended_mantissa (x : Rat) : (extended x).mantissa = ⌊x⌋₊ := by
  show ⌊2 * x⌋₊ / 2 = _
  rw [← floor_two_mul_half, mul_div_cancel₀ _ (two_ne_zero)]

/-- The exponent that the whole part asks for is the one of the number. -/
private theorem targetExponent_floor {x : Rat} (hx : 0 < x) (he : e ≤ spacing (x * 2 ^ e)) :
    binary64.targetExponent (totalExponent ⌊x⌋₊ e) = spacing (x * 2 ^ e) := by
  rw [targetExponent_eq, totalExponent, Nat.log2_eq_log_two]
  rw [spacing, log_mul_zpow hx] at he ⊢
  obtain hle | hlt := le_or_gt 1 x
  · rw [Int.log_of_one_le_right 2 hle]
    omega
  · -- Nothing is left of the mantissa, and it has no logarithm. So small a number lies where the
    -- doubles are as near to each other as they can, and there the logarithm does not matter.
    have hlog : Int.log 2 x < 0 := by
      rw [← Int.lt_zpow_iff_log_lt (by norm_num) hx, zpow_zero]
      exact hlt
    rw [Nat.floor_eq_zero.mpr hlt, Nat.log_zero_right]
    omega

/-- Before rounding, a mantissa is shifted to the grid. -/
private theorem shiftToTargetExponent_eq {a : Accuracy} {x : Rat}
    (h : ExtendedMantissa.ofMantissaAndAccuracy m a = extended x) (hx : 0 < x)
    (he : e ≤ spacing (x * 2 ^ e)) :
    shiftToTargetExponent binary64 m e a =
      (extended (x * 2 ^ e / 2 ^ spacing (x * 2 ^ e)), spacing (x * 2 ^ e)) := by
  have hm : m = ⌊x⌋₊ := by
    rw [← extended_mantissa, ← h]
    cases a with
    | exact => rfl
    | inexact o => cases o <;> rfl
  have hshift : x / 2 ^ (spacing (x * 2 ^ e) - e).toNat =
      x * 2 ^ e / 2 ^ spacing (x * 2 ^ e) := by
    rw [two_zpow_shift he, mul_comm x, mul_div_mul_left _ _ (zpow_pos two_pos e).ne']
  unfold shiftToTargetExponent shiftToExponent
  dsimp only
  rw [hm, targetExponent_floor hx he, ← hm, h, extended_shiftRight, hshift]
  simp only [Prod.mk.injEq, true_and]
  omega

/-- After rounding, a mantissa has at most one bit too many. -/
private theorem shiftToTargetExponent_rounded (hn : n ≤ 2 ^ 53) (he : -1074 ≤ e) :
    shiftToTargetExponent binary64 n e .exact =
      if n < 2 ^ 53 then (⟨n, false, false⟩, e) else (⟨2 ^ 52, false, false⟩, e + 1) := by
  unfold shiftToTargetExponent shiftToExponent
  dsimp only
  rw [targetExponent_eq, totalExponent]
  split
  · rename_i hlt
    have hlog : n.log2 < 53 := by
      obtain rfl | hpos := Nat.eq_zero_or_pos n
      · decide
      · exact (Nat.log2_lt hpos.ne').mpr hlt
    have hstay : (max ((n.log2 : Int) + 1 + e - 53) (-1074) - e).toNat = 0 := by omega
    rw [hstay, Nat.cast_zero, add_zero]
    rfl
  · rename_i hge
    obtain rfl : n = 2 ^ 53 := by omega
    have hnext : (max (((53 : Nat) : Int) + 1 + e - 53) (-1074) - e).toNat = 1 := by omega
    rw [Nat.log2_two_pow, hnext]
    rfl

/-- A rounded mantissa with its exponent; one bit too many is carried over. -/
def carried (s : Sign) (n : Nat) (e : Int) : UnpackedFloat :=
  if h : n = 0 then .zero s
  else if n < 2 ^ 53 then .finite s n e (Nat.pos_of_ne_zero h)
  else .finite s (2 ^ 52) (e + 1) (by decide)

/-- What is computed exactly is shifted to the grid and rounded to the nearest even. -/
theorem roundWithAccuracy_eq {s : Sign} {a : Accuracy} {x : Rat}
    (h : ExtendedMantissa.ofMantissaAndAccuracy m a = extended x) (hx : 0 < x)
    (he : e ≤ spacing (x * 2 ^ e)) :
    roundWithAccuracy binary64 s m e a =
      carried s (nearest (x * 2 ^ e / 2 ^ spacing (x * 2 ^ e))) (spacing (x * 2 ^ e)) := by
  have hsecond := shiftToTargetExponent_rounded
    (nearest_le_of_spacing (mul_pos hx (zpow_pos two_pos e))) (le_spacing (x * 2 ^ e))
  unfold roundWithAccuracy
  rw [shiftToTargetExponent_eq h hx he]
  dsimp only
  rw [show (extended _).roundedMantissa = nearest _ from rfl]
  generalize nearest (x * 2 ^ e / 2 ^ spacing (x * 2 ^ e)) = n at hsecond ⊢
  by_cases hlt : n < 2 ^ 53
  · rw [if_pos hlt] at hsecond
    rw [hsecond, carried]
    dsimp only
    by_cases hzero : n = 0
    · rw [dif_pos hzero, dif_pos hzero]
    · rw [dif_neg hzero, dif_neg hzero, if_pos hlt]
  · have hne : n ≠ 0 := by omega
    rw [if_neg hlt] at hsecond
    rw [hsecond, carried, dif_neg hne, if_neg hlt]
    rfl

/-- What is rounded up to the next power of two has the exponent of that one. -/
private theorem steps_carried : steps (2 ^ 53) e = steps (2 ^ 52) (e + 1) := by
  rw [steps, steps]
  omega

/-- A finite mantissa has its own place, or that of infinity when its exponent is too large. -/
private theorem place_kept_finite (hm : 0 < m) (hm' : m < 2 ^ 53) (he : -1074 ≤ e)
    (hfull : 2 ^ 52 ≤ m ∨ e = -1074) :
    place (kept (.finite .positive m e hm)) = some (min (steps m e) top) := by
  obtain hle | hlt := le_or_gt e 971
  · have hfits : Fits m e := ⟨hm, hm', he, hle, hfull⟩
    rw [kept_finite hfits, min_eq_left hfits.steps_lt_top.le]
    rfl
  · have htop : top ≤ steps m e := by
      rw [steps, top]
      omega
    rw [kept_of_too_large hlt, min_eq_right htop]
    rfl

theorem place_kept_carried (hn : n ≤ 2 ^ 53) (he : -1074 ≤ e)
    (hfull : 2 ^ 52 ≤ n ∨ e = -1074) :
    place (kept (carried .positive n e)) = some (min (steps n e) top) := by
  rw [carried]
  by_cases hzero : n = 0
  · obtain rfl : e = -1074 := hfull.resolve_left (by omega)
    rw [dif_pos hzero, hzero]
    rfl
  · rw [dif_neg hzero]
    by_cases hlt : n < 2 ^ 53
    · rw [if_pos hlt]
      exact place_kept_finite _ hlt he hfull
    · obtain rfl : n = 2 ^ 53 := by omega
      rw [if_neg hlt, steps_carried]
      exact place_kept_finite _ (by decide) (by omega) (.inl le_rfl)

/-- The double nearest to the exact result. It needs that the exact result was computed with bits
enough, which is what `he` says. -/
theorem place_kept_roundWithAccuracy {a : Accuracy} {x : Rat}
    (h : ExtendedMantissa.ofMantissaAndAccuracy m a = extended x) (hx : 0 < x)
    (he : e ≤ spacing (x * 2 ^ e)) :
    place (kept (roundWithAccuracy binary64 .positive m e a)) = some (rounded (x * 2 ^ e)) := by
  have hpos : 0 < x * 2 ^ e := mul_pos hx (zpow_pos two_pos e)
  rw [roundWithAccuracy_eq h hx he, rounded_of_pos hpos]
  refine place_kept_carried (nearest_le_of_spacing hpos) (le_spacing _) ?_
  obtain heq | hlt := (le_spacing (x * 2 ^ e)).eq_or_lt
  · exact .inr heq.symm
  · exact .inl (le_nearest_of_spacing hpos hlt)

end PolicyDesk.Double
