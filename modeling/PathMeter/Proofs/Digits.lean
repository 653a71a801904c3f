import Mathlib.Algebra.GroupWithZero.Nat
import PathMeter.Decimal.Fixed

/-!
# Rows of digits

What readers ask of the digits that were written: how many there are, which one
comes first, and what a row is worth after zeros were put before it or behind
it.
-/

namespace PathMeter.Decimal

/-- What holds of the ten digits holds of every digit. -/
theorem forall_isDigit {P : Char → Prop} (h : ∀ k : Fin 10, P (Char.ofNat (48 + k.val))) {c : Char}
    (hc : isDigit c = true) : P c := by
  unfold isDigit at hc
  simp only [Bool.and_eq_true, decide_eq_true_eq] at hc
  have hk := h ⟨c.toNat - 48, by omega⟩
  rwa [show 48 + (c.toNat - 48) = c.toNat by omega, Char.ofNat_toNat] at hk

/-- A positive number is written without leading zeros. -/
theorem head?_digits {n : Nat} (hn : n ≠ 0) : (digits n).head? ≠ some '0' := by
  fun_induction digits n with
  | case1 n hlt =>
      intro hhead
      have hdigit := congrArg digitValue (Option.some.inj hhead)
      rw [digitValue_digit, Nat.mod_eq_of_lt hlt] at hdigit
      exact hn hdigit
  | case2 n hge ih =>
      obtain ⟨c, ds, hds⟩ := List.exists_cons_of_ne_nil (digits_ne_nil (n / 10))
      rw [hds] at ih ⊢
      exact ih (by omega)

theorem unpadded_digits (n : Nat) : (digits n).length = 1 ∨ (digits n).head? ≠ some '0' := by
  by_cases hn : n = 0
  · rw [hn, digits]
    exact Or.inl rfl
  · exact Or.inr (head?_digits hn)

/-- A small number has few digits. -/
theorem length_digits_le {n k : Nat} (hk : 0 < k) (hn : n < 10 ^ k) : (digits n).length ≤ k := by
  induction k generalizing n with
  | zero => exact absurd hk (Nat.lt_irrefl 0)
  | succ k ih =>
      rw [digits]
      split
      · exact Nat.succ_le_succ (Nat.zero_le k)
      · next hge =>
        have hrest : n / 10 < 10 ^ k := by
          rw [Nat.pow_succ] at hn
          omega
        have hk' : 0 < k := by
          refine Nat.pos_of_ne_zero ?_
          rintro rfl
          omega
        rw [List.length_append]
        exact Nat.succ_le_succ (ih hk' hrest)

theorem length_padded {width n : Nat} (hwidth : (digits n).length ≤ width) :
    (padded width n).length = width := by
  unfold padded
  rw [List.length_append, List.length_replicate]
  omega

theorem padded_ne_nil (width n : Nat) : padded width n ≠ [] :=
  List.append_ne_nil_of_right_ne_nil _ (digits_ne_nil n)

theorem le_length_padded (width n : Nat) : width ≤ (padded width n).length := by
  unfold padded
  rw [List.length_append, List.length_replicate]
  omega

/-- Leading zeros are only put before a number that is too short. -/
theorem padded_eq_digits {width n : Nat} (hwidth : width ≤ (digits n).length) :
    padded width n = digits n := by
  unfold padded
  dsimp only
  rw [Nat.sub_eq_zero_of_le hwidth]
  rfl

theorem valueFrom_zeros (start k : Nat) :
    valueFrom start (List.replicate k '0') = start * 10 ^ k := by
  induction k generalizing start with
  | zero => exact (Nat.mul_one start).symm
  | succ k ih =>
      rw [List.replicate_succ, Nat.pow_succ', ← Nat.mul_assoc, Nat.mul_comm start]
      exact ih (10 * start)

/-- Leading zeros change nothing. -/
theorem value_padded (width n : Nat) : value (padded width n) = n := by
  unfold padded
  rw [value, valueFrom_append, valueFrom_zeros, Nat.zero_mul]
  exact value_digits n

/-- A zero behind a number makes it ten times as large. -/
theorem value_append_zeros (ds : List Char) (k : Nat) :
    value (ds ++ List.replicate k '0') = value ds * 10 ^ k := by
  rw [value, valueFrom_append, valueFrom_zeros]
  rfl

theorem isDigit_of_mem_padded (width n : Nat) : ∀ c ∈ padded width n, isDigit c = true := by
  intro c hc
  rcases List.mem_append.1 hc with hc | hc
  · rw [List.eq_of_mem_replicate hc]
    rfl
  · exact isDigit_of_mem_digits n c hc

/-- Digits are taken off a text up to the first character that is none. -/
theorem spanDigits_append {ds rest : List Char} (hds : ∀ c ∈ ds, isDigit c = true)
    (hrest : ∀ c ∈ rest.head?, isDigit c = false) :
    spanDigits (ds ++ rest) = (ds, rest) := by
  have hstop : rest.takeWhile isDigit = [] ∧ rest.dropWhile isDigit = rest := by
    cases rest with
    | nil => exact ⟨rfl, rfl⟩
    | cons c rest =>
        have hc := hrest c rfl
        constructor
        · rw [List.takeWhile_cons_of_neg (by rw [hc]; decide)]
        · rw [List.dropWhile_cons_of_neg (by rw [hc]; decide)]
  unfold spanDigits
  rw [List.takeWhile_append_of_pos hds, List.dropWhile_append_of_pos hds, hstop.1, hstop.2,
    List.append_nil]

end PathMeter.Decimal
