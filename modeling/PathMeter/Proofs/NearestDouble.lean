import PathMeter.Proofs.ShortestDigits

/-!
# Arithmetic rounds to the nearest double

The product and the quotient of two doubles are worked out exactly and then
cut to the digits that a double has.  What is cut off is kept in two bits, which
stand for the place of the number between two neighbours (`Represents`); so
rounding finds the nearest of them (`IsNearest`), and a number has only one
(`IsNearest.unique`).

`Span.around` draws the interval of the numbers that read as a double.  For a
number in that interval the double is the nearest one, in the units that
rounding picks (`targetExponent_of_contains`), so rounding finds it
(`roundWithAccuracy_eq`), and so do multiplication and division (`mul_eq`,
`div_eq`).
-/

namespace PathMeter.Decimal

open Float.Model (Format totalExponent)
open Float.Model.UnpackedFloat

/-! ### Cutting digits off -/

/-- Half a unit, where the flag is set. -/
def halfUnit (b : Bool) : ℚ :=
  if b then 1 / 2 else 0

/-- A mantissa with its two last bits stands for a number: it lies on the half
that the first bit names, or somewhere behind it if the second is set. -/
def Represents (em : ExtendedMantissa) (y : ℚ) : Prop :=
  if em.stickyBit then
    em.mantissa + halfUnit em.roundBit < y ∧ y < em.mantissa + halfUnit em.roundBit + 1 / 2
  else y = em.mantissa + halfUnit em.roundBit

/-- A natural number next to a number, the even one of two that are equally
near. -/
structure IsNearest (y : ℚ) (n : Nat) : Prop where
  low : (n : ℚ) - 1 / 2 ≤ y
  high : y ≤ n + 1 / 2
  even : y = n - 1 / 2 ∨ y = n + 1 / 2 → n % 2 = 0

theorem Represents.floor {em : ExtendedMantissa} {y : ℚ} (h : Represents em y) :
    (em.mantissa : ℚ) ≤ y ∧ y < em.mantissa + 1 := by
  unfold Represents halfUnit at h
  split at h <;> split at h <;> constructor <;> linarith

theorem Represents.shiftRightOne {em : ExtendedMantissa} {y : ℚ} (h : Represents em y) :
    Represents em.shiftRightOne (y / 2) := by
  obtain ⟨n, roundBit, stickyBit⟩ := em
  have hhalf : (n : ℚ) = 2 * ((n / 2 : Nat) + halfUnit (n % 2 != 0)) := by
    have hsplit : (n : ℚ) = 2 * (n / 2 : Nat) + (n % 2 : Nat) := by
      exact_mod_cast (Nat.div_add_mod n 2).symm
    rw [hsplit]
    rcases Nat.mod_two_eq_zero_or_one n with hn | hn
    · simp [hn, halfUnit]
    · simp [hn, halfUnit]
      ring
  unfold Represents ExtendedMantissa.shiftRightOne at *
  dsimp only at h ⊢
  generalize ((n / 2 : Nat) : ℚ) + halfUnit (n % 2 != 0) = half at hhalf ⊢
  rw [hhalf] at h
  cases roundBit <;> cases stickyBit <;> simp [halfUnit] at h ⊢
  · linarith
  · constructor <;> linarith
  · constructor <;> linarith
  · constructor <;> linarith

/-- The digits cut off are not forgotten. -/
theorem Represents.shiftRight {em : ExtendedMantissa} {y : ℚ} (h : Represents em y) (k : Nat) :
    Represents (em >>> k) (y / 2 ^ k) := by
  induction k with
  | zero =>
      rw [pow_zero, div_one]
      exact h
  | succ k ih =>
      rw [pow_succ, ← div_div]
      exact ih.shiftRightOne

/-- Rounding goes to the nearest natural number. -/
theorem Represents.isNearest {em : ExtendedMantissa} {y : ℚ} (h : Represents em y) :
    IsNearest y em.roundedMantissa := by
  obtain ⟨n, roundBit, stickyBit⟩ := em
  have hnext : ((n + 1 : Nat) : ℚ) = n + 1 := by push_cast; rfl
  cases roundBit <;> cases stickyBit <;> simp [Represents, halfUnit] at h <;>
    simp only [ExtendedMantissa.roundedMantissa, ExtendedMantissa.accuracy,
      Accuracy.roundToNearestEven]
  · refine ⟨by linarith, by linarith, ?_⟩
    intro htie
    rcases htie with htie | htie <;> linarith
  · refine ⟨by linarith, by linarith, ?_⟩
    intro htie
    rcases htie with htie | htie <;> linarith
  · rcases Nat.mod_two_eq_zero_or_one n with hn | hn <;> rw [hn]
    · rw [Nat.add_zero]
      exact ⟨by linarith, by linarith, fun _ => hn⟩
    · exact ⟨by linarith, by linarith, fun _ => by omega⟩
  · refine ⟨by linarith, by linarith, ?_⟩
    intro htie
    rcases htie with htie | htie <;> linarith

private theorem IsNearest.not_lt {y : ℚ} {n k : Nat} (hn : IsNearest y n) (hk : IsNearest y k) :
    ¬ n < k := by
  intro hlt
  have hstep : (n : ℚ) + 1 ≤ k := by exact_mod_cast hlt
  have hlow := hk.low
  have hhigh := hn.high
  have hnext : k = n + 1 := by
    have : (k : ℚ) = (n + 1 : Nat) := by
      push_cast
      linarith
    exact_mod_cast this
  have hn' := hn.even (Or.inr (by linarith))
  have hk' := hk.even (Or.inl (by linarith))
  omega

theorem IsNearest.unique {y : ℚ} {n k : Nat} (hn : IsNearest y n) (hk : IsNearest y k) :
    n = k :=
  Nat.le_antisymm (Nat.le_of_not_lt (hk.not_lt hn)) (Nat.le_of_not_lt (hn.not_lt hk))

/-! ### The place of the last digit -/

/-- The exponent that a double has whose leading digit has a place. -/
theorem targetExponent_eq (l : Int) :
    Format.binary64.targetExponent l = max (l - 53) (-1074) := by
  rfl

/-- The leading digit of a number is where that of its whole part is. -/
theorem log2_bounds {x : ℚ} {n : Nat} {e : Int} (hn : n ≠ 0) (hlow : n ≤ x / 2 ^ e)
    (hhigh : x / 2 ^ e < n + 1) :
    (2 : ℚ) ^ (n.log2 + e : Int) ≤ x ∧ x < 2 ^ (n.log2 + e + 1 : Int) := by
  have hpos : (0 : ℚ) < 2 ^ e := by positivity
  rw [le_div_iff₀ hpos] at hlow
  rw [div_lt_iff₀ hpos] at hhigh
  constructor
  · have hself : (2 : ℚ) ^ n.log2 ≤ n := by exact_mod_cast Nat.log2_self_le hn
    rw [zpow_add₀ two_ne_zero, zpow_natCast]
    exact le_trans (by gcongr) hlow
  · have hself : (n : ℚ) + 1 ≤ 2 ^ (n.log2 + 1) := by exact_mod_cast Nat.lt_log2_self
    rw [show (n.log2 + e + 1 : Int) = ((n.log2 + 1 : Nat) : Int) + e by push_cast; ring,
      zpow_add₀ two_ne_zero, zpow_natCast]
    exact lt_of_lt_of_le hhigh (by gcongr)

section Rounding

variable {m : Nat} {e : Int} {x : ℚ}

/-- The smallest normal significand has the double below it only half as far
away. -/
def IsPower (m : Nat) (e : Int) : Prop :=
  m = Nat.pow 2 52 ∧ e ≠ -1074

theorem low_around (hm : 0 < m) :
    IsPower m e ∧ ((Span.around m e).low : ℚ) = 4 * m - 1 ∨
      ¬ IsPower m e ∧ ((Span.around m e).low : ℚ) = 4 * m - 2 := by
  unfold Span.around IsPower
  dsimp only
  split
  · next hpower =>
    refine Or.inl ⟨hpower, ?_⟩
    rw [Nat.cast_sub (by omega)]
    push_cast
    ring
  · next hpower =>
    refine Or.inr ⟨hpower, ?_⟩
    rw [Nat.cast_sub (by omega)]
    push_cast
    ring

/-- The interval in units of the last place. -/
theorem bounds_of_contains (hm : 0 < m) (hx : (Span.around m e).Contains x) :
    (m : ℚ) - 1 / 2 ≤ x / 2 ^ e ∧ x / 2 ^ e ≤ m + 1 / 2 ∧
      (m % 2 ≠ 0 → (m : ℚ) - 1 / 2 < x / 2 ^ e ∧ x / 2 ^ e < m + 1 / 2) ∧
      (IsPower m e → (m : ℚ) - 1 / 4 ≤ x / 2 ^ e) := by
  have hpos : (0 : ℚ) < 2 ^ e := by positivity
  have hunit : (2 : ℚ) ^ (Span.around m e).unit = 2 ^ e / 4 := by
    show (2 : ℚ) ^ (e - 2) = _
    rw [zpow_sub₀ two_ne_zero]
    ring
  have hhigh : ((Span.around m e).high : ℚ) = 4 * m + 2 := by
    show ((4 * m + 2 : Nat) : ℚ) = _
    push_cast
    rfl
  obtain ⟨y, rfl⟩ : ∃ y, x = y * 2 ^ e := ⟨x / 2 ^ e, (div_mul_cancel₀ x hpos.ne').symm⟩
  rw [mul_div_cancel_right₀ _ hpos.ne']
  have hscale : ∀ a : ℚ, a * (2 ^ e / 4) = a / 4 * 2 ^ e := fun a => by ring
  unfold Span.Contains at hx
  rw [hunit, hhigh, hscale, hscale] at hx
  simp only [mul_le_mul_iff_of_pos_right hpos, mul_lt_mul_iff_of_pos_right hpos] at hx
  have hclosed : (Span.around m e).closed = decide (m % 2 = 0) := rfl
  rw [hclosed] at hx
  by_cases heven : m % 2 = 0
  · rw [if_pos (decide_eq_true heven)] at hx
    rcases low_around (e := e) hm with ⟨hpower, hlow⟩ | ⟨hpower, hlow⟩ <;> rw [hlow] at hx
    · exact ⟨by linarith, by linarith, fun hodd => absurd heven hodd, fun _ => by linarith⟩
    · exact ⟨by linarith, by linarith, fun hodd => absurd heven hodd, fun h => absurd h hpower⟩
  · rw [if_neg (by simpa using heven)] at hx
    rcases low_around (e := e) hm with ⟨hpower, hlow⟩ | ⟨hpower, hlow⟩ <;> rw [hlow] at hx
    · exact ⟨by linarith, by linarith, fun _ => ⟨by linarith, by linarith⟩, fun _ => by linarith⟩
    · exact ⟨by linarith, by linarith, fun _ => ⟨by linarith, by linarith⟩,
        fun h => absurd h hpower⟩

/-- The numbers that read as a double are nearest to it, in units of its last
place. -/
theorem isNearest_of_contains (hm : 0 < m) (hx : (Span.around m e).Contains x) :
    IsNearest (x / 2 ^ e) m := by
  obtain ⟨hlow, hhigh, hodd, -⟩ := bounds_of_contains hm hx
  refine ⟨hlow, hhigh, ?_⟩
  intro htie
  by_contra hm'
  obtain ⟨hlow', hhigh'⟩ := hodd hm'
  rcases htie with htie | htie <;> linarith

private theorem lt_of_zpow_lt {k l : Int} (h : (2 : ℚ) ^ k < 2 ^ l) : k < l :=
  (zpow_lt_zpow_iff_right₀ one_lt_two).1 h

/-- A leading digit lies below a power of two that the number does not reach. -/
theorem place_lt {p : Int} {k : Nat} (hp : (2 : ℚ) ^ p ≤ x) (hx : x / 2 ^ e < 2 ^ k) :
    p < k + e := by
  apply lt_of_zpow_lt
  rw [div_lt_iff₀ (by positivity)] at hx
  rw [zpow_add₀ two_ne_zero, zpow_natCast]
  exact lt_of_le_of_lt hp hx

/-- A leading digit does not lie below a power of two that the number reaches. -/
theorem le_place {p : Int} {k : Nat} (hp : x < (2 : ℚ) ^ (p + 1)) (hx : 2 ^ k ≤ x / 2 ^ e) :
    k + e ≤ p := by
  apply Int.le_of_lt_add_one
  apply lt_of_zpow_lt
  rw [le_div_iff₀ (by positivity)] at hx
  rw [zpow_add₀ two_ne_zero, zpow_natCast]
  exact lt_of_le_of_lt hx hp

/-- A number that is less than one unit belongs to the bottom of the range. -/
theorem exponent_le_of_lt (h : IsDouble m e) (hx : (Span.around m e).Contains x) {f : Int}
    (hsmall : x < 2 ^ f) : e < f ∨ e = -1074 := by
  obtain ⟨hfrom, -, -, -⟩ := bounds_of_contains h.pos hx
  rcases h.normal with hnormal | hbottom
  · have hm : (2 : ℚ) ^ 52 ≤ m := by exact_mod_cast hnormal
    refine Or.inl (lt_of_zpow_lt (lt_of_le_of_lt ?_ hsmall))
    rw [le_div_iff₀ (by positivity)] at hfrom
    have hpos : (0 : ℚ) < 2 ^ e := by positivity
    nlinarith
  · exact Or.inr hbottom

/-- The last place of a number that reads as a double is that of the double, or
the next one where the number lies below a power of two and the double is that
power. -/
theorem targetExponent_of_contains (h : IsDouble m e) (hx : (Span.around m e).Contains x) {n : Nat}
    {f : Int} (hlow : n ≤ x / 2 ^ f) (hhigh : x / 2 ^ f < n + 1)
    (hf : f ≤ max ((n.log2 + 1 + f : Int) - 53) (-1074)) :
    max ((n.log2 + 1 + f : Int) - 53) (-1074) = e ∨
      max ((n.log2 + 1 + f : Int) - 53) (-1074) = e - 1 ∧ IsPower m e ∧ x / 2 ^ e < m := by
  have hleast := h.least
  by_cases hn : n = 0
  · -- everything is below the bottom of the range
    subst hn
    rw [Nat.log2_zero] at hf ⊢
    have hsmall : x < 2 ^ f := by
      rw [div_lt_iff₀ (by positivity)] at hhigh
      simpa using hhigh
    have := exponent_le_of_lt h hx hsmall
    omega
  · obtain ⟨hfrom, hto, -, hpower⟩ := bounds_of_contains h.pos hx
    obtain ⟨hbelow, habove⟩ := log2_bounds hn hlow hhigh
    generalize (n.log2 : Int) = l at hbelow habove hf ⊢
    have hm : (m : ℚ) + 1 ≤ 2 ^ 53 := by exact_mod_cast h.lt
    have hless : x / 2 ^ e < 2 ^ 53 := by linarith
    have htop := place_lt hbelow hless
    by_cases hfull : (2 : ℚ) ^ 52 ≤ x / 2 ^ e
    · have := le_place habove hfull
      omega
    · have hshort := place_lt hbelow (not_le.1 hfull)
      by_cases hbottom : e = -1074
      · omega
      · -- the number is short of the smallest normal significand, and so near that it reads as it
        have hnormal : 2 ^ 52 ≤ m := h.normal.resolve_right hbottom
        have hexact : m = 2 ^ 52 := by
          refine Nat.le_antisymm (Nat.le_of_lt_succ ?_) hnormal
          have hlt : (m : ℚ) < (2 ^ 52 + 1 : Nat) := by
            push_cast
            linarith
          exact_mod_cast hlt
        have hexact' : (m : ℚ) = 2 ^ 52 := by exact_mod_cast hexact
        have hpow : IsPower m e := ⟨hexact, hbottom⟩
        have hnear : 2 ^ 51 ≤ x / 2 ^ e := by linarith [hpower hpow]
        have := le_place habove hnear
        exact Or.inr ⟨by omega, hpow, by linarith⟩

/-- Below a power of two the places are half as wide. -/
theorem isNearest_below_power (hm : 0 < m) (hx : (Span.around m e).Contains x)
    (hpower : IsPower m e) (hlt : x / 2 ^ e < m) : IsNearest (x / 2 ^ (e - 1)) (2 * m) := by
  have hlow := (bounds_of_contains hm hx).2.2.2 hpower
  have htwice : x / 2 ^ (e - 1) = 2 * (x / 2 ^ e) := by
    rw [zpow_sub_one₀ two_ne_zero]
    field_simp
  rw [htwice]
  refine ⟨?_, ?_, fun _ => Nat.mul_mod_right 2 m⟩ <;> push_cast <;> linarith

/-! ### Rounding -/

theorem shiftToTargetExponent_eq (n : Nat) (f : Int) (accuracy : Accuracy) :
    shiftToTargetExponent .binary64 n f accuracy =
      let k := (max ((n.log2 + 1 + f : Int) - 53) (-1074) - f).toNat
      (ExtendedMantissa.ofMantissaAndAccuracy n accuracy >>> k, f + k) := by
  unfold shiftToTargetExponent shiftToExponent
  dsimp only
  rw [targetExponent_eq, totalExponent]

/-- A double is written with its own digits. -/
theorem shift_double (h : IsDouble m e) :
    shiftToTargetExponent .binary64 m e .exact = (⟨m, false, false⟩, e) := by
  have hlog : m.log2 < 53 := (Nat.log2_lt h.pos.ne').2 h.lt
  have hleast := h.least
  have hnone : (max ((m.log2 + 1 + e : Int) - 53) (-1074) - e).toNat = 0 := by omega
  rw [shiftToTargetExponent_eq, hnone]
  simp [ExtendedMantissa.ofMantissaAndAccuracy, HShiftRight.hShiftRight, Nat.repeat]

/-- Rounding up to a power of two makes one digit too many. -/
theorem shift_power (hpower : IsPower m e) (hleast : -1074 ≤ e) :
    shiftToTargetExponent .binary64 (2 * m) (e - 1) .exact = (⟨m, false, false⟩, e) := by
  obtain ⟨rfl, hne⟩ := hpower
  have hlog : (2 * Nat.pow 2 52).log2 = 53 := by decide +kernel
  have hone : (max (((2 * Nat.pow 2 52).log2 + 1 + (e - 1) : Int) - 53) (-1074) -
      (e - 1)).toNat = 1 := by
    omega
  rw [shiftToTargetExponent_eq, hone]
  simp [ExtendedMantissa.ofMantissaAndAccuracy, HShiftRight.hShiftRight, Nat.repeat,
    ExtendedMantissa.shiftRightOne]

/-- **Rounding finds the double** in whose interval a number lies, however many
digits of the number are known beyond those that the double has. -/
theorem roundWithAccuracy_eq (h : IsDouble m e) (hx : (Span.around m e).Contains x) {n : Nat}
    {f : Int} {accuracy : Accuracy}
    (hn : Represents (.ofMantissaAndAccuracy n accuracy) (x / 2 ^ f))
    (hf : f ≤ max ((n.log2 + 1 + f : Int) - 53) (-1074)) (sign : Sign) :
    roundWithAccuracy .binary64 sign n f accuracy = .finite sign m e h.pos := by
  have hmantissa : (ExtendedMantissa.ofMantissaAndAccuracy n accuracy).mantissa = n := by
    rcases accuracy with _ | ⟨_ | _ | _⟩ <;> rfl
  obtain ⟨hlow, hhigh⟩ := hn.floor
  rw [hmantissa] at hlow hhigh
  have hplace := targetExponent_of_contains h hx hlow hhigh hf
  unfold roundWithAccuracy
  rw [shiftToTargetExponent_eq]
  generalize max ((n.log2 + 1 + f : Int) - 53) (-1074) = t at hf hplace
  obtain ⟨k, hk⟩ := Int.eq_ofNat_of_zero_le (show 0 ≤ t - f by omega)
  obtain rfl : t = f + k := by omega
  have hrep := hn.shiftRight k
  rw [div_div, ← zpow_natCast, ← zpow_add₀ two_ne_zero] at hrep
  dsimp only
  rw [hk, Int.toNat_natCast]
  rcases hplace with hplace | ⟨hplace, hpower, hlt⟩
  · rw [hplace] at hrep ⊢
    rw [hrep.isNearest.unique (isNearest_of_contains h.pos hx), shift_double h]
    exact dif_neg h.pos.ne'
  · rw [hplace] at hrep ⊢
    rw [hrep.isNearest.unique (isNearest_below_power h.pos hx hpower hlt),
      shift_power hpower h.least]
    exact dif_neg h.pos.ne'

/-! ### Products and quotients -/

theorem represents_exact (n : Nat) : Represents (.ofMantissaAndAccuracy n .exact) n := by
  simp [Represents, ExtendedMantissa.ofMantissaAndAccuracy, halfUnit]

/-- What division leaves tells where the quotient lies. -/
theorem represents_quotient (a : Nat) {b : Nat} (hb : 0 < b) :
    Represents (.ofMantissaAndAccuracy (a / b) (accuracyOfFraction (a % b) b)) (a / b : ℚ) := by
  have hpos : (0 : ℚ) < b := by exact_mod_cast hb
  have hsplit : (a / b : ℚ) = (a / b : Nat) + (a % b : Nat) / b := by
    rw [div_eq_iff hpos.ne', add_mul, div_mul_cancel₀ _ hpos.ne']
    exact_mod_cast (Nat.div_add_mod' a b).symm
  have hrest : ((a % b : Nat) : ℚ) < b := by exact_mod_cast Nat.mod_lt a hb
  rw [hsplit]
  generalize a / b = q
  generalize a % b = r at hrest ⊢
  unfold accuracyOfFraction
  split
  · next hr =>
    rw [hr, Nat.cast_zero, zero_div, add_zero]
    exact represents_exact q
  · next hr =>
    have hr' : (0 : ℚ) < r := by exact_mod_cast Nat.pos_of_ne_zero hr
    have habove : (0 : ℚ) < r / b := by positivity
    have hbelow : (r / b : ℚ) < 1 := (div_lt_one hpos).2 hrest
    rcases Nat.lt_trichotomy (2 * r) b with hside | hside | hside
    · have hhalf : (r / b : ℚ) < 1 / 2 := by
        rw [div_lt_iff₀ hpos]
        have : (2 * r : ℚ) < b := by exact_mod_cast hside
        linarith
      rw [Nat.compare_eq_lt.2 hside]
      simp only [Represents, ExtendedMantissa.ofMantissaAndAccuracy, halfUnit]
      constructor <;> simp <;> linarith
    · have hhalf : (r / b : ℚ) = 1 / 2 := by
        rw [div_eq_iff hpos.ne', ← hside]
        push_cast
        ring
      rw [Nat.compare_eq_eq.2 hside]
      simp [Represents, ExtendedMantissa.ofMantissaAndAccuracy, halfUnit, hhalf]
    · have hhalf : (1 / 2 : ℚ) < r / b := by
        rw [lt_div_iff₀ hpos]
        have : (b : ℚ) < 2 * r := by exact_mod_cast hside
        linarith
      rw [Nat.compare_eq_gt.2 hside]
      simp only [Represents, ExtendedMantissa.ofMantissaAndAccuracy, halfUnit]
      constructor <;> simp <;> linarith

/-- A product is rounded to the double in whose interval it lies. -/
theorem mul_eq (h : IsDouble m e) {a b : Nat} {f g : Int} (ha : 0 < a) (hb : 0 < b)
    (hx : (Span.around m e).Contains (a * 2 ^ f * (b * 2 ^ g))) (hwide : 2 ^ 52 ≤ a * b) :
    mul .binary64 (.finite .positive a f ha) (.finite .positive b g hb) =
      .finite .positive m e h.pos := by
  have hlog : 52 ≤ (a * b).log2 := (Nat.le_log2 (Nat.mul_pos ha hb).ne').2 hwide
  have hproduct : (a * 2 ^ f * (b * 2 ^ g) : ℚ) / 2 ^ (f + g) = (a * b : Nat) := by
    rw [zpow_add₀ two_ne_zero]
    push_cast
    field_simp
  refine roundWithAccuracy_eq h hx ?_ (by omega) .positive
  rw [hproduct]
  exact represents_exact _

/-- A quotient is rounded to the double in whose interval it lies. -/
theorem div_eq (h : IsDouble m e) {a b : Nat} {f g : Int} (ha : 0 < a) (hb : 0 < b)
    (hx : (Span.around m e).Contains (a * 2 ^ f / (b * 2 ^ g))) :
    div .binary64 (.finite .positive a f ha) (.finite .positive b g hb) =
      .finite .positive m e h.pos := by
  unfold div divCore
  dsimp only
  rw [targetExponent_eq, totalExponent, totalExponent]
  have hplace := min_le_right (f - g)
    (max ((a.log2 + 1 + f : Int) - (b.log2 + 1 + g) - 53) (-1074))
  have hshift := min_le_left (f - g)
    (max ((a.log2 + 1 + f : Int) - (b.log2 + 1 + g) - 53) (-1074))
  generalize min (f - g) _ = t at hplace hshift
  obtain ⟨k, hk⟩ := Int.eq_ofNat_of_zero_le (show 0 ≤ f - g - t by omega)
  rw [hk, Int.toNat_natCast]
  have hquotient : (a * 2 ^ f / (b * 2 ^ g) : ℚ) / 2 ^ t = (a <<< k : Nat) / b := by
    obtain rfl : t = f - g - k := by omega
    rw [zpow_sub₀ two_ne_zero, zpow_sub₀ two_ne_zero, zpow_natCast, Nat.shiftLeft_eq]
    push_cast
    field_simp
  refine roundWithAccuracy_eq h hx ?_ ?_ .positive
  · rw [hquotient]
    exact represents_quotient _ hb
  · by_cases hbottom : t ≤ -1074
    · omega
    · -- the quotient is wide enough to fill the double
      have hwide : 2 ^ 52 ≤ a <<< k / b := by
        rw [Nat.le_div_iff_mul_le hb, Nat.shiftLeft_eq]
        calc 2 ^ 52 * b ≤ 2 ^ 52 * 2 ^ (b.log2 + 1) :=
              Nat.mul_le_mul_left _ Nat.lt_log2_self.le
          _ = 2 ^ (b.log2 + 53) := by rw [← Nat.pow_add]; congr 1; omega
          _ ≤ 2 ^ (a.log2 + k) := Nat.pow_le_pow_right (by decide) (by omega)
          _ = 2 ^ a.log2 * 2 ^ k := Nat.pow_add 2 _ _
          _ ≤ a * 2 ^ k := Nat.mul_le_mul_right _ (Nat.log2_self_le ha.ne')
      have hlog := (Nat.le_log2 (by omega)).2 hwide
      omega

end Rounding

end PathMeter.Decimal
