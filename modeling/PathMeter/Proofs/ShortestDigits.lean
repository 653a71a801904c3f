import Mathlib.Algebra.Order.Field.Power
import Mathlib.Data.Rat.Cast.Order
import Mathlib.Tactic.FieldSimp
import Mathlib.Tactic.Linarith
import Mathlib.Tactic.Positivity
import Mathlib.Tactic.Ring
import PathMeter.Decimal.Shortest

/-!
# The shortest digits lie next to the double

`shortest` looks for a short decimal number in the interval of the numbers that
read as a double.  Here its answer is shown to lie in that interval, for every
positive double (`contains_shortest`).

Whatever grid the search stops at, what it takes from there lies inside
(`Span.contains_of_gridPoint?`).  It stops at the finest of its grids if at no
other: the double has at most 53 binary digits, so the seventeenth decimal
digit is worth less than a quarter of its last place, and the grid point below
the double lies inside (`Span.contains_of_fine`).
-/

namespace PathMeter.Decimal

/-- Significand and exponent of a positive double: 53 binary digits, or fewer
at the bottom of the range. -/
structure IsDouble (m : Nat) (e : Int) : Prop where
  pos : 0 < m
  lt : m < Nat.pow 2 53
  least : -1074 ≤ e
  greatest : e ≤ 971
  normal : Nat.pow 2 52 ≤ m ∨ e = -1074

/-- The number that is meant. -/
def Scientific.value (s : Scientific) : ℚ :=
  s.significand * 10 ^ s.exponent

/-- A power with an exponent of either sign, as a quotient of natural powers. -/
theorem mul_zpow_eq (b : Nat) (hb : b ≠ 0) (z : Int) :
    (b : ℚ) ^ z * (b ^ (-z).toNat : Nat) = (b ^ z.toNat : Nat) := by
  have hne : (b : ℚ) ≠ 0 := Nat.cast_ne_zero.2 hb
  rcases Int.le_total 0 z with hz | hz
  · obtain ⟨n, rfl⟩ := Int.eq_ofNat_of_zero_le hz
    simp
  · obtain ⟨n, hn⟩ := Int.eq_ofNat_of_zero_le (Int.neg_nonneg_of_nonpos hz)
    obtain rfl : z = -n := by omega
    simp [hne]

namespace Span

/-- A number lies in the interval. -/
def Contains (s : Span) (x : ℚ) : Prop :=
  if s.closed then s.low * 2 ^ s.unit ≤ x ∧ x ≤ s.high * 2 ^ s.unit
  else s.low * 2 ^ s.unit < x ∧ x < s.high * 2 ^ s.unit

theorem stepDen_pos (s : Span) (k : Int) : (0 : ℚ) < s.stepDen k := by
  unfold stepDen
  simp only [Nat.pow_eq, Nat.cast_mul, Nat.cast_pow]
  positivity

/-- The unit measured in steps of a grid. -/
theorem stepNum_mul (s : Span) (k : Int) :
    (s.stepNum k : ℚ) * 10 ^ k = 2 ^ s.unit * s.stepDen k := by
  have htwo := mul_zpow_eq 2 (by decide) s.unit
  have hten := mul_zpow_eq 10 (by decide) k
  unfold stepNum stepDen
  simp only [Nat.pow_eq, Nat.cast_mul]
  push_cast at htwo hten ⊢
  rw [← htwo, ← hten]
  ring

/-- Grid points are compared without any rounding. -/
theorem cmp_step (s : Span) (k : Int) (a c : Nat) :
    (a * s.stepNum k ≤ c * s.stepDen k ↔ (a : ℚ) * 2 ^ s.unit ≤ c * 10 ^ k) ∧
      (c * s.stepDen k ≤ a * s.stepNum k ↔ (c : ℚ) * 10 ^ k ≤ a * 2 ^ s.unit) := by
  have hden := s.stepDen_pos k
  have hten : (0 : ℚ) < 10 ^ k := by positivity
  have hstep := s.stepNum_mul k
  have hleft : ((a * s.stepNum k : Nat) : ℚ) * 10 ^ k = a * 2 ^ s.unit * s.stepDen k := by
    push_cast
    rw [mul_assoc, hstep]
    ring
  have hright : ((c * s.stepDen k : Nat) : ℚ) * 10 ^ k = c * 10 ^ k * s.stepDen k := by
    push_cast
    ring
  constructor
  · rw [← Nat.cast_le (α := ℚ), ← mul_le_mul_iff_of_pos_right hten, hleft, hright,
      mul_le_mul_iff_of_pos_right hden]
  · rw [← Nat.cast_le (α := ℚ), ← mul_le_mul_iff_of_pos_right hten, hleft, hright,
      mul_le_mul_iff_of_pos_right hden]

theorem holds_iff (s : Span) (k : Int) (c : Nat) :
    s.holds k c = true ↔ s.Contains (c * 10 ^ k) := by
  obtain ⟨hlow, -⟩ := s.cmp_step k s.low c
  obtain ⟨hlow', hhigh⟩ := s.cmp_step k s.high c
  unfold holds Contains
  cases s.closed with
  | true => simp [hlow, hhigh]
  | false =>
      obtain ⟨-, hlow''⟩ := s.cmp_step k s.low c
      simp [← not_le, hlow'', hlow']

/-- What is taken from a grid lies in the interval. -/
theorem contains_of_gridPoint? {s : Span} {k : Int} {c : Nat} (h : s.gridPoint? k = some c) :
    s.Contains (c * 10 ^ k) := by
  rw [← holds_iff]
  unfold gridPoint? at h
  dsimp only at h
  split at h
  · next hbelow habove =>
    rcases roundEven_cases (s.centre * s.stepNum k) (s.stepDen k) with ⟨hround, -⟩ | ⟨hround, -⟩
    · rwa [← Option.some.inj h, hround]
    · rwa [← Option.some.inj h, hround]
  · next hbelow _ => rwa [← Option.some.inj h]
  · next _ habove => rwa [← Option.some.inj h]
  · simp at h

/-- The search finds something if its last grid has something. -/
theorem contains_search {s : Span} (fuel : Nat) (k : Int) (hlast : s.gridPoint? (k - fuel) ≠ none) :
    s.Contains (s.search fuel k).value := by
  induction fuel generalizing k with
  | zero =>
      rw [Int.natCast_zero, Int.sub_zero] at hlast
      obtain ⟨c, hc⟩ := Option.ne_none_iff_exists'.1 hlast
      rw [search, hc]
      exact contains_of_gridPoint? hc
  | succ fuel ih =>
      rw [search]
      split
      · next c hc => exact contains_of_gridPoint? hc
      · exact ih (k - 1) (by rwa [Int.sub_sub, Int.add_comm, ← Int.natCast_succ])

/-- A grid that is finer than the unit has a point inside. -/
theorem gridPoint?_of_fine {m : Nat} {e k : Int} (hm : 0 < m)
    (hfine : (10 : ℚ) ^ k ≤ 2 ^ (e - 2)) : (around m e).gridPoint? k ≠ none := by
  -- the grid point below the double, less than a step away
  generalize hs : around m e = s
  have hcentre : s.centre = 4 * m := by rw [← hs]; rfl
  have hunit : s.unit = e - 2 := by rw [← hs]; rfl
  have hlow : s.low + 1 ≤ s.centre := by
    rw [← hs]
    unfold around
    dsimp only
    split <;> omega
  have hhigh : s.high = s.centre + 2 := by rw [← hs]; rfl
  obtain ⟨-, hbelow⟩ := s.cmp_step k s.centre (s.centre * s.stepNum k / s.stepDen k)
  obtain ⟨-, habove⟩ := s.cmp_step k s.centre (s.centre * s.stepNum k / s.stepDen k + 1)
  have hden : 0 < s.stepDen k := by exact_mod_cast s.stepDen_pos k
  have hpoint := hbelow.1 (Nat.div_mul_le_self _ _)
  have hnext : (s.centre : ℚ) * 2 ^ s.unit <
      ((s.centre * s.stepNum k / s.stepDen k + 1 : Nat) : ℚ) * 10 ^ k := by
    rw [← not_le, ← habove, not_le, Nat.mul_comm (_ + 1)]
    exact Nat.lt_mul_div_succ _ hden
  have hunitpos : (0 : ℚ) < 2 ^ s.unit := by positivity
  have hlow' : (s.low : ℚ) * 2 ^ s.unit + 2 ^ s.unit ≤ s.centre * 2 ^ s.unit := by
    have hcast : (s.low : ℚ) + 1 ≤ s.centre := by exact_mod_cast hlow
    nlinarith
  have hinside : s.Contains ((s.centre * s.stepNum k / s.stepDen k : Nat) * 10 ^ k) := by
    rw [← hunit] at hfine
    have hfrom : (s.low : ℚ) * 2 ^ s.unit <
        (s.centre * s.stepNum k / s.stepDen k : Nat) * 10 ^ k := by
      push_cast at hnext ⊢
      linarith
    have hto : ((s.centre * s.stepNum k / s.stepDen k : Nat) : ℚ) * 10 ^ k <
        s.high * 2 ^ s.unit := by
      rw [hhigh]
      push_cast at hpoint ⊢
      linarith
    unfold Contains
    split
    · exact ⟨le_of_lt hfrom, le_of_lt hto⟩
    · exact ⟨hfrom, hto⟩
  have hholds := (s.holds_iff k _).2 hinside
  unfold gridPoint?
  dsimp only
  rw [hholds]
  cases s.holds k (s.centre * s.stepNum k / s.stepDen k + 1) <;> simp

end Span

/-! ### The first grid -/

/-- A power of ten is at most the quotient. -/
theorem reaches_iff (m : Nat) (e p : Int) :
    Binary.denominator e * Nat.pow 10 p.toNat ≤ Binary.numerator m e * Nat.pow 10 (-p).toNat ↔
      (10 : ℚ) ^ p ≤ m * 2 ^ e := by
  have htwo := mul_zpow_eq 2 (by decide) e
  have hten := mul_zpow_eq 10 (by decide) p
  have hpos : (0 : ℚ) < (2 ^ (-e).toNat : Nat) * (10 ^ (-p).toNat : Nat) := by positivity
  have hleft : ((Binary.denominator e * Nat.pow 10 p.toNat : Nat) : ℚ) =
      10 ^ p * ((2 ^ (-e).toNat : Nat) * (10 ^ (-p).toNat : Nat)) := by
    simp only [Binary.denominator, Nat.pow_eq, Nat.cast_mul]
    push_cast at hten ⊢
    rw [← hten]
    ring
  have hright : ((Binary.numerator m e * Nat.pow 10 (-p).toNat : Nat) : ℚ) =
      m * 2 ^ e * ((2 ^ (-e).toNat : Nat) * (10 ^ (-p).toNat : Nat)) := by
    simp only [Binary.numerator, Nat.pow_eq, Nat.cast_mul]
    push_cast at htwo ⊢
    rw [← htwo]
    ring
  rw [← Nat.cast_le (α := ℚ), hleft, hright, mul_le_mul_iff_of_pos_right hpos]

/-- The window around the estimate starts low enough for every double. -/
theorem estimate_low (l : Int) (hleast : -1074 ≤ l) (hgreatest : l ≤ 1023) :
    (10 : ℚ) ^ (l * 30103 / 100000 - 1) ≤ 2 ^ l := by
  have hall : ∀ n ∈ List.range 2098, Binary.denominator ((n : Int) - 1074) *
      Nat.pow 10 (((n : Int) - 1074) * 30103 / 100000 - 1).toNat ≤
        Binary.numerator 1 ((n : Int) - 1074) *
          Nat.pow 10 (-(((n : Int) - 1074) * 30103 / 100000 - 1)).toNat := by
    decide +kernel
  obtain ⟨n, hn⟩ := Int.eq_ofNat_of_zero_le (show 0 ≤ l + 1074 by omega)
  obtain rfl : l = (n : Int) - 1074 := by omega
  simpa using (reaches_iff 1 _ _).1 (hall n (List.mem_range.2 (by omega)))

theorem pow_decimalExponent_le {m : Nat} {e : Int} (h : IsDouble m e) :
    (10 : ℚ) ^ decimalExponent (Binary.numerator m e) (Binary.denominator e)
      (((Nat.log2 m : Int) + e) * 30103 / 100000) ≤ m * 2 ^ e := by
  have hlog : m.log2 < 53 := (Nat.log2_lt h.pos.ne').2 h.lt
  unfold decimalExponent
  dsimp only
  split
  · next hreach => exact (reaches_iff m e _).1 (of_decide_eq_true hreach)
  · split
    · next hreach => exact (reaches_iff m e _).1 (of_decide_eq_true hreach)
    · refine le_trans (estimate_low _ ?_ ?_) ?_
      · have := h.least
        omega
      · have := h.greatest
        omega
      · rw [zpow_add₀ two_ne_zero, zpow_natCast]
        gcongr
        exact_mod_cast Nat.log2_self_le h.pos.ne'

/-! ### The digits found -/

theorem value_stripZeros (fuel : Nat) (s : Scientific) :
    (s.stripZeros fuel).value = s.value := by
  fun_induction Scientific.stripZeros fuel s with
  | case1 s => rfl
  | case2 fuel s hzero ih =>
      rw [ih, Scientific.value, Scientific.value]
      have htens : ((s.significand / 10 : Nat) : ℚ) * 10 = s.significand := by
        exact_mod_cast Nat.div_mul_cancel (Nat.dvd_of_mod_eq_zero hzero.2)
      rw [zpow_add_one₀ (by norm_num), ← htens]
      ring
  | case3 fuel s hzero => rfl

/-- **The shortest digits lie next to the double**, so near that they read as
it. -/
theorem contains_shortest {m : Nat} {e : Int} (h : IsDouble m e) :
    (Span.around m e).Contains (shortest m e).value := by
  unfold shortest
  dsimp only
  rw [value_stripZeros]
  apply Span.contains_search
  apply Span.gridPoint?_of_fine h.pos
  have hp := pow_decimalExponent_le h
  generalize decimalExponent _ _ _ = p at hp ⊢
  have hm : (m : ℚ) < 2 ^ 53 := by exact_mod_cast h.lt
  have hunit : (2 : ℚ) ^ e = 4 * 2 ^ (e - 2) := by
    rw [zpow_sub₀ two_ne_zero]
    ring
  have hpos : (0 : ℚ) < 2 ^ (e - 2) := by positivity
  rw [zpow_sub₀ (by norm_num), div_le_iff₀ (by positivity)]
  calc (10 : ℚ) ^ p ≤ m * 2 ^ e := hp
    _ ≤ 2 ^ 53 * (4 * 2 ^ (e - 2)) := by
        rw [hunit]
        gcongr
    _ ≤ 2 ^ (e - 2) * 10 ^ ((17 : Nat) : Int) := by
        rw [zpow_natCast]
        nlinarith

/-- What lies next to a positive double is positive. -/
theorem pos_of_contains {m : Nat} {e : Int} {x : ℚ} (hm : 0 < m)
    (hx : (Span.around m e).Contains x) : 0 < x := by
  have hlow : (0 : ℚ) < (Span.around m e).low * 2 ^ (Span.around m e).unit := by
    have hpos : 0 < (Span.around m e).low := by
      unfold Span.around
      dsimp only
      split <;> omega
    positivity
  unfold Span.Contains at hx
  split at hx
  · exact lt_of_lt_of_le hlow hx.1
  · exact lt_trans hlow hx.1

end PathMeter.Decimal
