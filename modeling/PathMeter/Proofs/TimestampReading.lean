import PathMeter.Proofs.Calendar
import PathMeter.Proofs.Digits
import PathMeter.Time.Timestamp

/-!
# Instants are read back as they were written

The text of an instant is a row of numbers with leading zeros and marks between
them, and each part is read without looking far ahead.  An instant in the years
that take four digits, with no leap second, is the one that its text is read as
(`Timestamp.ofText?_text`).
-/

namespace PathMeter.Time.Timestamp

open PathMeter.Decimal (digits padded value isDigit)

section Parts

variable {width n : Nat} {rest : List Char}

/-- A row of digits is not skipped as a blank. -/
theorem trimStart_of_isDigit {s : List Char} (hs : ∀ c ∈ s.head?, isDigit c = true) :
    Text.trimStart s = s := by
  refine Text.trimStart_of_head? fun c hc => ?_
  exact Decimal.forall_isDigit (P := fun c => Text.isBlank c = false) (by decide) (hs c hc)

theorem head?_padded (width n : Nat) (rest : List Char) :
    ∀ c ∈ (padded width n ++ rest).head?, isDigit c = true := by
  obtain ⟨d, ds, hds⟩ := List.exists_cons_of_ne_nil (Decimal.padded_ne_nil width n)
  rintro c hc
  rw [hds] at hc
  obtain rfl : d = c := Option.some.inj hc
  exact Decimal.isDigit_of_mem_padded width n d (by rw [hds]; exact List.mem_cons_self)

/-- The digits of a number up to the next mark. -/
theorem takeWhile_padded (hrest : ∀ c ∈ rest.head?, isDigit c = false) :
    (padded width n ++ rest).takeWhile isDigit = padded width n :=
  congrArg Prod.fst (Decimal.spanDigits_append (Decimal.isDigit_of_mem_padded width n) hrest)

/-- A number with leading zeros is read back. -/
theorem number?_padded (most : Nat) (hwidth : 0 < width) (hn : n < 10 ^ width)
    (hmost : width ≤ most) (rest : List Char) (hrest : ∀ c ∈ rest.head?, isDigit c = false) :
    number? most (padded width n ++ rest) = some (n, rest) := by
  have hlength := Decimal.length_padded (Decimal.length_digits_le hwidth hn)
  have htake : (padded width n).take most = padded width n :=
    List.take_of_length_le (by omega)
  unfold number?
  dsimp only
  rw [trimStart_of_isDigit (head?_padded width n rest), takeWhile_padded hrest, htake,
    if_neg (Decimal.padded_ne_nil width n), Decimal.value_padded, List.drop_left]

theorem fraction?_padded (width : Nat) (hwidth : 0 < width) (hn : n < 10 ^ width)
    (hmost : width ≤ 9) (hrest : ∀ c ∈ rest.head?, isDigit c = false) :
    fraction? ('.' :: (padded width n ++ rest)) = some (n * 10 ^ (9 - width), rest) := by
  have hlength := Decimal.length_padded (Decimal.length_digits_le hwidth hn)
  have htake : (padded width n).take 9 = padded width n :=
    List.take_of_length_le (by omega)
  show (if (padded width n ++ rest).takeWhile isDigit = [] then none
    else some (value (((padded width n ++ rest).takeWhile isDigit).take 9) * Nat.pow 10 _,
      (padded width n ++ rest).drop _)) = _
  rw [takeWhile_padded hrest, if_neg (Decimal.padded_ne_nil width n), htake,
    Decimal.value_padded, List.drop_left, hlength]
  rfl

end Parts

/-- A year of four digits is read back. -/
theorem year?_yearText {year : Int} (hfrom : 0 ≤ year) (hto : year ≤ 9999) (rest : List Char)
    (hrest : ∀ c ∈ rest.head?, isDigit c = false) :
    year? (yearText year ++ rest) = some (year, rest) := by
  have hn : year.natAbs < 10 ^ 4 := by omega
  have hnumber := number?_padded 4 (by decide) hn (Nat.le_refl 4) rest hrest
  have hhead := head?_padded 4 year.natAbs rest
  unfold yearText
  rw [if_neg (by omega), if_pos hto]
  unfold year?
  dsimp only
  rw [trimStart_of_isDigit hhead]
  split
  · next heq =>
    rw [heq] at hhead
    exact absurd (hhead '-' rfl) (by decide)
  · next heq =>
    rw [heq] at hhead
    exact absurd (hhead '+' rfl) (by decide)
  · rw [hnumber, Option.map_some, Int.natAbs_of_nonneg hfrom]

variable {t : Timestamp}

theorem date?_dateText (hfrom : 0 ≤ t.date.year) (hto : t.date.year ≤ 9999) (rest : List Char) :
    date? (t.dateText ++ 'T' :: rest) = some (t.date, rest) := by
  have hvalid := (Date.ofDays_spec (t.seconds.fdiv daySeconds)).1
  have hdate : Date.ofDays (t.seconds.fdiv daySeconds) = t.date := rfl
  rw [hdate] at hvalid
  unfold dateText
  generalize t.date = d at *
  have hmonth : d.month < 10 ^ 2 ∧ d.day < 10 ^ 2 := by
    unfold Date.isValid at hvalid
    simp only [Bool.and_eq_true, decide_eq_true_eq] at hvalid
    have hdays : daysInMonth d.year d.month ≤ 31 := by
      unfold daysInMonth
      split
      · split <;> decide
      all_goals decide
    omega
  have hyear := year?_yearText hfrom hto
    ('-' :: (padded 2 d.month ++ '-' :: (padded 2 d.day ++ 'T' :: rest)))
    (by rintro c ⟨⟩; rfl)
  have hmonth' := number?_padded 2 (by decide) hmonth.1 (Nat.le_refl 2)
    ('-' :: (padded 2 d.day ++ 'T' :: rest)) (by rintro c ⟨⟩; rfl)
  have hday := number?_padded 2 (by decide) hmonth.2 (Nat.le_refl 2)
    ('T' :: rest) (by rintro c ⟨⟩; rfl)
  have hmark : ∀ s, mark? '-' ('-' :: s) = some s := fun s => rfl
  simp only [List.append_assoc, List.cons_append]
  unfold date?
  simp only [hyear, hmark, hmonth', hday, Option.bind_eq_bind, Option.bind_some]
  rfl

theorem fraction?_fractionText (hnanos : t.nanos < secondNanos) :
    fraction? (t.fractionText ++ ['Z']) = some (t.nanos, ['Z']) := by
  have hlt : t.nanos < 1000000000 := hnanos
  have hmark : ∀ c ∈ ['Z'].head?, isDigit c = false := by
    rintro c ⟨⟩
    rfl
  have hwhole : t.nanos % secondNanos = t.nanos := Nat.mod_eq_of_lt hnanos
  unfold fractionText
  rw [hwhole]
  dsimp only
  split
  · next hzero =>
    rw [hzero]
    rfl
  · split
    · rw [List.cons_append, fraction?_padded 3 (by decide) (by omega) (by decide) hmark,
        show t.nanos / 1000000 * 10 ^ (9 - 3) = t.nanos by omega]
    · split
      · rw [List.cons_append, fraction?_padded 6 (by decide) (by omega) (by decide) hmark,
          show t.nanos / 1000 * 10 ^ (9 - 6) = t.nanos by omega]
      · rw [List.cons_append, fraction?_padded 9 (by decide) (by omega) (by decide) hmark,
          show t.nanos * 10 ^ (9 - 9) = t.nanos by omega]

theorem head?_fractionText (t : Timestamp) :
    ∀ c ∈ (t.fractionText ++ ['Z']).head?, isDigit c = false := by
  unfold fractionText
  dsimp only
  intro c hc
  split at hc
  · cases hc
    rfl
  · split at hc
    · cases hc
      rfl
    · split at hc
      · cases hc
        rfl
      · cases hc
        rfl

theorem clock?_clockText (hnanos : t.nanos < secondNanos) :
    clock? (t.clockText ++ (t.fractionText ++ ['Z'])) =
      some ((t.secondOfDay, t.nanos), ['Z']) := by
  have hday : t.secondOfDay < 86400 := by
    unfold secondOfDay daySeconds
    rw [Int.fmod_eq_emod_of_nonneg _ (by decide)]
    omega
  have hshown : t.shownSecond = t.secondOfDay % 60 := by
    unfold shownSecond
    rw [Nat.div_eq_of_lt hnanos, Nat.add_zero]
  have hfraction := fraction?_fractionText hnanos
  unfold clockText
  rw [hshown]
  generalize t.secondOfDay = s at *
  have hhour := number?_padded 2 (n := s / 3600) (by decide) (by omega) (Nat.le_refl 2)
    (':' :: (padded 2 (s / 60 % 60) ++ ':' :: (padded 2 (s % 60) ++
      (t.fractionText ++ ['Z'])))) (by rintro c ⟨⟩; rfl)
  have hminute := number?_padded 2 (n := s / 60 % 60) (by decide) (by omega)
    (Nat.le_refl 2) (':' :: (padded 2 (s % 60) ++ (t.fractionText ++ ['Z'])))
    (by rintro c ⟨⟩; rfl)
  have hsecond := number?_padded 2 (n := s % 60) (by decide) (by omega) (Nat.le_refl 2) _
    (head?_fractionText t)
  have hmark : ∀ s, mark? ':' (':' :: s) = some s := fun s => rfl
  simp only [List.append_assoc, List.cons_append]
  unfold clock?
  simp only [hhour, hmark, hminute, hsecond, hfraction, Option.bind_eq_bind, Option.bind_some]
  rw [if_pos (by omega), Nat.div_eq_of_lt (show s % 60 < 60 by omega)]
  congr 3
  omega

/-- **An instant is read back** from its text. -/
theorem ofText?_text (hfrom : 0 ≤ t.date.year) (hto : t.date.year ≤ 9999)
    (hnanos : t.nanos < secondNanos) : ofText? t.text = some t := by
  have hdate := date?_dateText hfrom hto (t.clockText ++ (t.fractionText ++ ['Z']))
  have hclock := clock?_clockText hnanos
  have hoffset : offset? ['Z'] = some (0, []) := rfl
  obtain ⟨hvalid, hdays⟩ := Date.ofDays_spec (t.seconds.fdiv daySeconds)
  have hback : t.date.toDays * daySeconds + t.secondOfDay - 0 = t.seconds := by
    unfold date secondOfDay
    rw [hdays]
    unfold daySeconds
    have hmod := Int.mul_fdiv_add_fmod t.seconds 86400
    rw [Int.fmod_eq_emod_of_nonneg _ (by decide)] at hmod ⊢
    rw [Int.toNat_of_nonneg (by omega)]
    omega
  have hrange : yearInRange t.date.year = true := by
    unfold yearInRange
    simp only [Bool.and_eq_true, decide_eq_true_eq]
    omega
  have htext : t.text = t.dateText ++ 'T' :: (t.clockText ++ (t.fractionText ++ ['Z'])) := by
    unfold text
    simp
  unfold ofText?
  rw [htext]
  simp only [hdate, hclock, hoffset, Option.bind_eq_bind, Option.bind_some]
  rw [hback, if_pos ⟨rfl, hvalid, hrange⟩]
  exact if_pos hrange

end PathMeter.Time.Timestamp
