/-!
# Natural numbers in decimal

The decimal digits of a natural number, most significant first, and the value
of a row of digits.  `value_digits` says that reading undoes writing.
-/

namespace PathMeter.Decimal

/-- The digit character of a number below ten. -/
def digit (n : Nat) : Char :=
  Char.ofNat (48 + n % 10)

/-- Whether a character is one of the ten ASCII digits; no other script's
digits count. -/
def isDigit (c : Char) : Bool :=
  48 ≤ c.toNat && c.toNat ≤ 57

/-- The number that a digit stands for. -/
def digitValue (c : Char) : Nat :=
  c.toNat - 48

/-- The decimal digits of a number, without a leading zero unless it is zero. -/
def digits (n : Nat) : List Char :=
  if n < 10 then [digit n] else digits (n / 10) ++ [digit n]

/-- The value of a row of digits read after a number `start`. -/
def valueFrom (start : Nat) (ds : List Char) : Nat :=
  ds.foldl (fun v c => 10 * v + digitValue c) start

/-- The value of a row of digits; an empty row is zero. -/
def value (ds : List Char) : Nat :=
  valueFrom 0 ds

/-- A number's digits with leading zeros up to a width. -/
def padded (width n : Nat) : List Char :=
  let ds := digits n
  List.replicate (width - ds.length) '0' ++ ds

/-- Splits a text at the end of its leading digits. -/
def spanDigits (s : List Char) : List Char × List Char :=
  (s.takeWhile isDigit, s.dropWhile isDigit)

private theorem digit_cases {P : Nat → Prop} (h : ∀ k : Fin 10, P k.val) (n : Nat) :
    P (n % 10) :=
  h ⟨n % 10, Nat.mod_lt n (by decide)⟩

theorem digitValue_digit (n : Nat) : digitValue (digit n) = n % 10 :=
  digit_cases (P := fun k => digitValue (Char.ofNat (48 + k)) = k) (by decide) n

theorem isDigit_digit (n : Nat) : isDigit (digit n) = true :=
  digit_cases (P := fun k => isDigit (Char.ofNat (48 + k)) = true) (by decide) n

theorem valueFrom_append (start : Nat) (a b : List Char) :
    valueFrom start (a ++ b) = valueFrom (valueFrom start a) b :=
  List.foldl_append

/-- Reading the digits of a number gives the number back. -/
theorem value_digits (n : Nat) : value (digits n) = n := by
  fun_induction digits n with
  | case1 n h =>
    simp [value, valueFrom, digitValue_digit, Nat.mod_eq_of_lt h]
  | case2 n h ih =>
    rw [value, valueFrom_append, ← value, ih]
    simp [valueFrom, digitValue_digit]
    omega

/-- Every character written for a number is a digit. -/
theorem isDigit_of_mem_digits (n : Nat) : ∀ c ∈ digits n, isDigit c = true := by
  fun_induction digits n with
  | case1 n h => simp [isDigit_digit]
  | case2 n h ih =>
    intro c hc
    rcases List.mem_append.1 hc with hc | hc
    · exact ih c hc
    · rw [List.mem_singleton.1 hc]; exact isDigit_digit n

/-- At least one digit is written. -/
theorem digits_ne_nil (n : Nat) : digits n ≠ [] := by
  rw [digits]; split <;> simp

end PathMeter.Decimal
