import PathMeter.Decimal.Numeral
import PathMeter.Proofs.DoubleBits
import PathMeter.Proofs.NearestDouble

/-!
# Decimal numbers are read as the nearest double

`Float.ofScientific` makes a double from a natural number and a power of ten.
Few digits and a small power it takes as two doubles, both exact (`IsExactly`),
and multiplies or divides them; anything else it works out in full.  Either way
a number in the interval around a double becomes that double
XX
(`toFloat_numeral`).
-/

namespace PathMeter.Decimal

open Float.Model (Format totalExponent)
open Float.Model.UnpackedFloat

/-- A double that is exactly a positive number, and has all its digits in use. -/
def IsExactly (x : Float) (y : ℚ) : Prop :=
  ∃ m e, ∃ h : IsDouble m e, Nat.pow 2 52 ≤ m ∧ (m * 2 ^ e : ℚ) = y ∧ x = h.toFloat false

/-- A double lies in its own interval. -/
theorem contains_self {m : Nat} (hm : 0 < m) (e : Int) :
    (Span.around m e).Contains (m * 2 ^ e) := by
  have hpos : (0 : ℚ) < 2 ^ (e - 2) := by positivity
  have hunit : (m * 2 ^ e : ℚ) = (4 * m : Nat) * 2 ^ (e - 2) := by
    rw [zpow_sub₀ two_ne_zero]
    push_cast
    ring
  have hlow : ((Span.around m e).low : ℚ) * 2 ^ (e - 2) < (4 * m : Nat) * 2 ^ (e - 2) := by
    have hlt : (Span.around m e).low < 4 * m := by
      unfold Span.around
      dsimp only
      split <;> omega
    gcongr
  have hhigh : ((4 * m : Nat) : ℚ) * 2 ^ (e - 2) < (4 * m + 2 : Nat) * 2 ^ (e - 2) := by
    gcongr
    omega
  rw [hunit]
  unfold Span.Contains
  split
  · exact ⟨le_of_lt hlow, le_of_lt hhigh⟩
  · exact ⟨hlow, hhigh⟩

/-- A natural number below `2 ^ 53` is a double. -/
theorem isExactly_toFloat {n : Nat} (hn : 0 < n) (hlt : n < 2 ^ 53) :
    IsExactly n.toUInt64.toFloat n := by
  have hlog : n.log2 < 53 := (Nat.log2_lt hn.ne').2 hlt
  obtain ⟨k, hk⟩ := Nat.exists_eq_add_of_le (Nat.le_of_lt_succ hlog)
  have hfull : Nat.pow 2 52 ≤ n <<< k := by
    rw [Nat.shiftLeft_eq]
    calc 2 ^ 52 = 2 ^ n.log2 * 2 ^ k := by rw [hk, Nat.pow_add]
      _ ≤ n * 2 ^ k := Nat.mul_le_mul_right _ (Nat.log2_self_le hn.ne')
  have hbelow : n <<< k < Nat.pow 2 53 := by
    rw [Nat.shiftLeft_eq]
    calc n * 2 ^ k < 2 ^ (n.log2 + 1) * 2 ^ k :=
          Nat.mul_lt_mul_of_pos_right Nat.lt_log2_self (Nat.two_pow_pos k)
      _ = 2 ^ 53 := by rw [← Nat.pow_add]; congr 1; omega
  have hdouble : IsDouble (n <<< k) (-k) :=
    ⟨lt_of_lt_of_le (by decide) hfull, hbelow, by omega, by omega, Or.inl hfull⟩
  have hvalue : ((n <<< k : Nat) * 2 ^ (-k : Int) : ℚ) = n := by
    rw [Nat.shiftLeft_eq, zpow_neg, zpow_natCast]
    push_cast
    field_simp
  refine ⟨n <<< k, -k, hdouble, hfull, hvalue, ?_⟩
  have hword : n.toUInt64.toNat = n := by
    rw [Nat.toUInt64, UInt64.toNat_ofNat']
    omega
  have hshift : (0 - (max ((n.log2 + 1 + 0 : Int) - 53) (-1074))).toNat = k := by omega
  unfold UInt64.toFloat Float.Model.ofUInt64 ofUInt64 Float.Model.UnpackedFloat.ofNat
    Float.Model.UnpackedFloat.ofInt Float.Model.UnpackedFloat.normalize
  rw [hword, Int.compare_eq_gt.2 (by exact_mod_cast hn)]
  dsimp only
  unfold Float.Model.UnpackedFloat.round decreaseExponent
  dsimp only
  rw [Int.toNat_natCast, targetExponent_eq, totalExponent, hshift, Int.zero_sub]
  congr 2
  have hlog' : (n <<< k).log2 = 52 := by
    rw [Nat.log2_eq_iff hdouble.pos.ne']
    exact ⟨hfull, hbelow⟩
  refine roundWithAccuracy_eq hdouble (contains_self hdouble.pos _) ?_ (by omega) .positive
  rw [mul_div_cancel_right₀ _ (by positivity)]
  exact represents_exact _

/-- The powers of ten up to the twenty-second are doubles. -/
theorem isExactly_power {j : Nat} (hj : j < Float.exactlyRepresentablePowersOfTen.size) :
    IsExactly Float.exactlyRepresentablePowersOfTen[j] (10 ^ j) := by
  have htable : ∀ j : Fin 23, Binary.ofFloat Float.exactlyRepresentablePowersOfTen[j] =
      .finite false (5 ^ j.val <<< (52 - (5 ^ j.val).log2))
        (j - (52 - (5 ^ j.val).log2 : Nat)) := by
    decide +kernel
  have hfull : ∀ j : Fin 23, Nat.pow 2 52 ≤ 5 ^ j.val <<< (52 - (5 ^ j.val).log2) := by
    decide +kernel
  have hread := htable ⟨j, hj⟩
  have hlarge := hfull ⟨j, hj⟩
  dsimp only [Fin.getElem_fin] at hread hlarge
  generalize 52 - (5 ^ j).log2 = k at hread hlarge
  have hpositive : 5 ^ j <<< k ≠ 0 := (lt_of_lt_of_le (by decide) hlarge).ne'
  have hdouble := isDouble_of_ofFloat hread hpositive
  have hvalue : ((5 ^ j <<< k : Nat) * 2 ^ (j - k : Int) : ℚ) = 10 ^ j := by
    rw [Nat.shiftLeft_eq, zpow_sub₀ two_ne_zero, zpow_natCast, zpow_natCast,
      show (10 : ℚ) = 5 * 2 by norm_num, mul_pow]
    push_cast
    field_simp
  exact ⟨_, _, hdouble, hlarge, hvalue, hdouble.eq_toFloat hread⟩

variable {m n : Nat} {e k : Int}

/-- Few digits and a small power are read by way of two exact doubles. -/
theorem mul_eq_of_isExactly {x y : Float} {a b : ℚ} (h : IsDouble m e) (hx : IsExactly x a)
    (hy : IsExactly y b) (hin : (Span.around m e).Contains (a * b)) :
    x * y = h.toFloat false := by
  obtain ⟨m₁, e₁, h₁, hfull₁, rfl, rfl⟩ := hx
  obtain ⟨m₂, e₂, h₂, hfull₂, rfl, rfl⟩ := hy
  have hwide : 2 ^ 52 ≤ m₁ * m₂ := Nat.le_trans hfull₁ (Nat.le_mul_of_pos_right m₁ h₂.pos)
  show Float.ofModel (.pack (mul .binary64 (h₁.toFloat false).toModel.unpack
    (h₂.toFloat false).toModel.unpack)) = _
  rw [h₁.unpack_toFloat, h₂.unpack_toFloat]
  exact congrArg (fun u => Float.ofModel (.pack u)) (mul_eq h h₁.pos h₂.pos hin hwide)

theorem div_eq_of_isExactly {x y : Float} {a b : ℚ} (h : IsDouble m e) (hx : IsExactly x a)
    (hy : IsExactly y b) (hin : (Span.around m e).Contains (a / b)) :
    x / y = h.toFloat false := by
  obtain ⟨m₁, e₁, h₁, hfull₁, rfl, rfl⟩ := hx
  obtain ⟨m₂, e₂, h₂, hfull₂, rfl, rfl⟩ := hy
  show Float.ofModel (.pack (div .binary64 (h₁.toFloat false).toModel.unpack
    (h₂.toFloat false).toModel.unpack)) = _
  rw [h₁.unpack_toFloat, h₂.unpack_toFloat]
  exact congrArg (fun u => Float.ofModel (.pack u)) (div_eq h h₁.pos h₂.pos hin)

theorem pos_of_contains_scaled (h : IsDouble m e)
    (hx : (Span.around m e).Contains (n * 10 ^ k)) : 0 < n := by
  have hpos := pos_of_contains h.pos hx
  refine Nat.pos_of_ne_zero ?_
  rintro rfl
  simp at hpos

/-- A number next to a double does not have a larger power than is looked at. -/
theorem scale_le (h : IsDouble m e) (hx : (Span.around m e).Contains (n * 10 ^ k)) :
    k ≤ 2 ^ 11 := by
  obtain ⟨-, hto, -, -⟩ := bounds_of_contains h.pos hx
  have hgreatest := h.greatest
  have hm : (m : ℚ) + 1 ≤ 2 ^ 53 := by exact_mod_cast h.lt
  have hn : (1 : ℚ) ≤ n := by exact_mod_cast pos_of_contains_scaled h hx
  by_contra hlarge
  obtain ⟨j, rfl⟩ := Int.eq_ofNat_of_zero_le (show 0 ≤ k by omega)
  have htens : (2 : ℚ) ^ (j : Int) ≤ n * 10 ^ (j : Int) := by
    rw [zpow_natCast, zpow_natCast]
    calc (2 : ℚ) ^ j ≤ 10 ^ j := by
          gcongr
          norm_num
      _ ≤ n * 10 ^ j := le_mul_of_one_le_left (by positivity) hn
  have hless : (n * 10 ^ (j : Int) : ℚ) / 2 ^ e < 2 ^ 53 := by linarith
  have := place_lt htens hless
  omega

/-- Nor does it have a smaller one. -/
theorem le_scale (h : IsDouble m e) (hx : (Span.around m e).Contains (n * 10 ^ k)) :
    -(2 ^ 11 + n.log2 : Int) ≤ k := by
  obtain ⟨hfrom, -, -, -⟩ := bounds_of_contains h.pos hx
  have hleast := h.least
  have hm : (1 : ℚ) ≤ m := by exact_mod_cast h.pos
  have hlog : (n : ℚ) < 2 ^ (n.log2 + 1) := by exact_mod_cast Nat.lt_log2_self
  by_contra hsmall
  obtain ⟨j, hj⟩ := Int.eq_ofNat_of_zero_le (show 0 ≤ -k by omega)
  obtain rfl : k = -j := by omega
  have htens : (n * 10 ^ (-j : Int) : ℚ) < 2 ^ ((n.log2 : Int) - j + 1) := by
    calc (n * 10 ^ (-j : Int) : ℚ) < 2 ^ (n.log2 + 1) * 10 ^ (-j : Int) := by gcongr
      _ ≤ 2 ^ (n.log2 + 1) * 2 ^ (-j : Int) := by
          rw [zpow_neg, zpow_neg, zpow_natCast, zpow_natCast]
          gcongr
          norm_num
      _ = 2 ^ ((n.log2 : Int) - j + 1) := by
          rw [show ((n.log2 : Int) - j + 1) = (n.log2 + 1 : Nat) + -(j : Int) by push_cast; ring,
            zpow_add₀ two_ne_zero, zpow_natCast]
  have hhalf : (2 : ℚ) ^ 0 ≤ n * 10 ^ (-j : Int) / 2 ^ (e - 1) := by
    rw [zpow_sub_one₀ two_ne_zero, div_mul_eq_div_div, div_inv_eq_mul]
    linarith
  have := le_place htens hhalf
  omega

/-- Many digits or a large power are worked out in full. -/
theorem ofScientific_in_full (h : IsDouble m e)
    (hx : (Span.around m e).Contains (n * 10 ^ k)) :
    Float.Model.UnpackedFloat.ofScientific .binary64 n k = .finite .positive m e h.pos := by
  have hn := pos_of_contains_scaled h hx
  unfold Float.Model.UnpackedFloat.ofScientific
  rw [dif_neg hn.ne', if_neg (not_lt.2 (scale_le h hx)), if_neg (not_lt.2 (le_scale h hx))]
  by_cases hk : 0 ≤ k
  · rw [if_pos hk]
    obtain ⟨j, rfl⟩ := Int.eq_ofNat_of_zero_le hk
    refine mul_eq h _ _ ?_ ?_
    · rw [Nat.shiftLeft_eq, zpow_neg, zpow_natCast]
      push_cast
      rw [mul_inv_cancel_right₀ (by positivity)]
      simpa using hx
    · calc 2 ^ 52 ≤ n * 2 ^ 53 := by omega
        _ ≤ n <<< Format.binary64.mantissaBits * 10 ^ Int.toNat j := by
            rw [Nat.shiftLeft_eq]
            exact Nat.le_mul_of_pos_right _ (by positivity)
  · rw [if_neg hk]
    obtain ⟨j, hj⟩ := Int.eq_ofNat_of_zero_le (show 0 ≤ -k by omega)
    obtain rfl : k = -j := by omega
    refine div_eq h hn _ ?_
    rw [zpow_neg, zpow_natCast, ← div_eq_mul_inv] at hx
    simpa using hx

/-- **A number in the interval around a double is read as that double.** -/
theorem ofScientific_eq (h : IsDouble m e) (hx : (Span.around m e).Contains (n * 10 ^ k)) :
    Float.ofScientific n (k < 0) k.natAbs = h.toFloat false := by
  have hn := pos_of_contains_scaled h hx
  have hfull := ofScientific_in_full h hx
  unfold Float.ofScientific
  by_cases hk : k < 0
  · obtain ⟨j, hj⟩ := Int.eq_ofNat_of_zero_le (show 0 ≤ -k by omega)
    obtain rfl : k = -j := by omega
    rw [Int.natAbs_neg, Int.natAbs_natCast, decide_eq_true hk]
    split
    · next hsmall =>
      rw [zpow_neg, zpow_natCast, ← div_eq_mul_inv] at hx
      exact div_eq_of_isExactly h (isExactly_toFloat hn hsmall.1) (isExactly_power _) hx
    · rw [if_pos rfl, Int.negOfNat_eq]
      exact congrArg (fun u => Float.ofModel (.pack u)) hfull
  · obtain ⟨j, rfl⟩ := Int.eq_ofNat_of_zero_le (Int.not_lt.1 hk)
    rw [Int.natAbs_natCast, decide_eq_false hk]
    split
    · next hsmall =>
      rw [zpow_natCast] at hx
      exact mul_eq_of_isExactly h (isExactly_toFloat hn hsmall.1) (isExactly_power _) hx
    · exact congrArg (fun u => Float.ofModel (.pack u)) hfull

end PathMeter.Decimal
