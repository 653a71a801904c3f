import Mathlib.Data.List.Induction
import Mathlib.Data.List.TakeWhile
import PathMeter.Address.V6
import PathMeter.Proofs.RecordReading
import PathMeter.Text.Blank

/-!
# What a target's text says

Three readings decide what a target is.  They are stated here without the
readers: the name of a target is what remains between the blanks around it
(`Text.isTrimOf_iff`), an IPv4 address is written in one way only
(`IPv4.ofText?_eq_some_iff`), and the addresses of an answer have a first IPv4
address or are all IPv6 (`IPAddress.split_at_first_v4`).

That only the digits of a byte are read as this byte goes back to rows of
digits: one without a leading zero is what its value is written as
(`Decimal.digits_value`), by induction on the row from its last digit.
-/

namespace PathMeter.Text

/-- What remains of a text without the blanks around it. -/
structure IsTrimOf (name s : List Char) : Prop where
  around : ∃ before after, s = before ++ name ++ after ∧
    (∀ c ∈ before, isBlank c = true) ∧ ∀ c ∈ after, isBlank c = true
  first : ∀ c ∈ name.head?, isBlank c = false
  last : ∀ c ∈ name.getLast?, isBlank c = false

theorem trimStart_append {before : List Char} (hbefore : ∀ c ∈ before, isBlank c = true)
    (s : List Char) : trimStart (before ++ s) = trimStart s :=
  List.dropWhile_append_of_pos hbefore

theorem head?_trimStart (s : List Char) : ∀ c ∈ (trimStart s).head?, isBlank c = false := by
  intro c hc
  have hnot := List.head?_dropWhile_not isBlank s
  rw [show (s.dropWhile isBlank).head? = some c from hc] at hnot
  simpa using hnot

/-- The blanks that a text starts with, and what is left of it. -/
theorem exists_blanks_append_trimStart (s : List Char) :
    ∃ before, s = before ++ trimStart s ∧ ∀ c ∈ before, isBlank c = true :=
  ⟨s.takeWhile isBlank, List.takeWhile_append_dropWhile.symm, fun _ => List.mem_takeWhile_imp⟩

theorem IsTrimOf.eq_trim {name s : List Char} (h : IsTrimOf name s) : name = trim s := by
  obtain ⟨before, after, rfl, hbefore, hafter⟩ := h.around
  have hback : trimStart (after.reverse ++ name.reverse) = name.reverse := by
    rw [trimStart_append fun c hc => hafter c (List.mem_reverse.1 hc)]
    refine trimStart_of_head? fun c hc => h.last c ?_
    rwa [List.head?_reverse] at hc
  unfold trim
  rw [List.append_assoc, trimStart_append hbefore]
  cases name with
  | nil =>
      have hnil : trimStart after = [] := by
        rw [← List.append_nil after, trimStart_append hafter]
        rfl
      rw [List.nil_append, hnil]
      rfl
  | cons c name =>
      rw [trimStart_of_head? (s := c :: name ++ after) h.first, List.reverse_append, hback,
        List.reverse_reverse]

theorem isTrimOf_trim (s : List Char) : IsTrimOf (trim s) s := by
  obtain ⟨before, hs, hbefore⟩ := exists_blanks_append_trimStart s
  obtain ⟨after, hmiddle, hafter⟩ := exists_blanks_append_trimStart (trimStart s).reverse
  have hsplit : trimStart s = trim s ++ after.reverse := by
    unfold trim
    rw [← List.reverse_append, ← hmiddle, List.reverse_reverse]
  refine ⟨⟨before, after.reverse, ?_, hbefore, fun c hc => hafter c (List.mem_reverse.1 hc)⟩,
    fun c hc => head?_trimStart s c ?_, fun c hc => ?_⟩
  · rw [List.append_assoc, ← hsplit]
    exact hs
  · rw [hsplit, List.head?_append, Option.mem_def.1 hc]
    rfl
  · unfold trim at hc
    rw [List.getLast?_reverse] at hc
    exact head?_trimStart _ c hc

/-- Every text has one name between the blanks around it. -/
theorem isTrimOf_iff {name s : List Char} : IsTrimOf name s ↔ name = trim s :=
  ⟨IsTrimOf.eq_trim, fun h => h ▸ isTrimOf_trim s⟩

end PathMeter.Text

namespace PathMeter.Decimal

theorem digit_digitValue {c : Char} (hc : isDigit c = true) : digit (digitValue c) = c :=
  forall_isDigit (P := fun c => digit (digitValue c) = c) (by decide) hc

theorem digitValue_lt {c : Char} (hc : isDigit c = true) : digitValue c < 10 :=
  forall_isDigit (P := fun c => digitValue c < 10) (by decide) hc

theorem value_append_digit (ds : List Char) (c : Char) :
    value (ds ++ [c]) = 10 * value ds + digitValue c :=
  valueFrom_append 0 ds [c]

/-- A row of digits without a leading zero is what its value is written as. -/
theorem digits_value {ds : List Char} (hne : ds ≠ []) (hds : ∀ c ∈ ds, isDigit c = true)
    (hlead : ds.length = 1 ∨ ds.head? ≠ some '0') : digits (value ds) = ds := by
  induction ds using List.reverseRecOn with
  | nil => exact absurd rfl hne
  | append_singleton ds c ih =>
      have hc : isDigit c = true := hds c (List.mem_append_right ds List.mem_cons_self)
      have hlt := digitValue_lt hc
      by_cases hnil : ds = []
      · subst hnil
        have hvalue : value [c] = digitValue c :=
          (value_append_digit [] c).trans (Nat.zero_add _)
        rw [List.nil_append, hvalue, digits, if_pos hlt, digit_digitValue hc]
      · have hhead : ds.head? ≠ some '0' := by
          rcases hlead with hone | hhead
          · rw [List.length_append] at hone
            exact absurd (List.eq_nil_of_length_eq_zero (Nat.succ.inj hone)) hnil
          · rwa [List.head?_append_of_ne_nil _ hnil] at hhead
        have hrow := ih hnil (fun d hd => hds d (List.mem_append_left [c] hd)) (.inr hhead)
        have hpos : value ds ≠ 0 := by
          intro hzero
          rw [hzero, digits] at hrow
          exact hhead (hrow ▸ rfl)
        have hdigit : digit (10 * value ds + digitValue c) = c := by
          rw [digit, Nat.mul_add_mod]
          exact digit_digitValue hc
        rw [value_append_digit, digits, if_neg (by omega), hdigit,
          Nat.mul_add_div (by decide), Nat.div_eq_of_lt hlt, Nat.add_zero, hrow]

end PathMeter.Decimal

namespace PathMeter.IPv4

theorem eq_digits_of_part? {s : List Char} {b : UInt8} (h : part? s = some b) :
    s = Decimal.digits b.toNat := by
  unfold part? at h
  split at h
  · next hs =>
    obtain ⟨hne, _, hdigits, hle, hlead⟩ := hs
    have hvalue : b.toNat = Decimal.value s := by
      rw [← Option.some.inj h, UInt8.toNat_ofNat_of_lt' (Nat.lt_succ_of_le hle)]
    rw [hvalue, Decimal.digits_value hne (List.all_eq_true.1 hdigits) hlead]
  · exact nomatch h

/-- Only the text of an address is read as this address. -/
theorem eq_text_of_ofText? {s : List Char} {ip : IPv4} (h : ofText? s = some ip) :
    s = ip.text := by
  have hjoin := Text.intercalate_splitAt '.' s
  unfold ofText? at h
  split at h
  · next a b c d hparts =>
    simp only [Option.bind_eq_bind, Option.bind_eq_some_iff] at h
    obtain ⟨a', ha, b', hb, c', hc, d', hd, hip⟩ := h
    rw [hparts, eq_digits_of_part? ha, eq_digits_of_part? hb, eq_digits_of_part? hc,
      eq_digits_of_part? hd] at hjoin
    rw [← hjoin, ← Option.some.inj hip]
    simp [text, List.intercalate]
  · exact nomatch h

/-- An address is written in one way only. -/
theorem ofText?_eq_some_iff {s : List Char} {ip : IPv4} : ofText? s = some ip ↔ s = ip.text :=
  ⟨eq_text_of_ofText?, fun h => h ▸ ip.ofText?_text⟩

end PathMeter.IPv4

namespace PathMeter.IPAddress

theorem ofText?_eq_v4_iff {s : List Char} {ip : IPv4} :
    ofText? s = some (.v4 ip) ↔ s = ip.text := by
  rw [← IPv4.ofText?_eq_some_iff]
  unfold ofText?
  cases IPv4.ofText? s with
  | some ip' => simp
  | none => simp

/-- The addresses of an answer have a first IPv4 address, or are all IPv6. -/
theorem split_at_first_v4 (addresses : List IPAddress) :
    (∃ (before : List IPv6) (ip : IPv4) (after : List IPAddress),
      addresses = before.map .v6 ++ .v4 ip :: after) ∨
    ∃ ips : List IPv6, addresses = ips.map .v6 := by
  induction addresses with
  | nil => exact .inr ⟨[], rfl⟩
  | cons address addresses ih =>
      cases address with
      | v4 ip => exact .inl ⟨[], ip, addresses, rfl⟩
      | v6 first =>
          rcases ih with ⟨before, ip, after, rfl⟩ | ⟨ips, rfl⟩
          · exact .inl ⟨first :: before, ip, after, rfl⟩
          · exact .inr ⟨first :: ips, rfl⟩

theorem findSome?_v6s (ips : List IPv6) : (ips.map IPAddress.v6).findSome? v4? = none := by
  induction ips with
  | nil => rfl
  | cons ip ips ih => exact ih

/-- Of an answer the first IPv4 address counts, whatever surrounds it. -/
theorem findSome?_first_v4 (before : List IPv6) (ip : IPv4) (after : List IPAddress) :
    (before.map IPAddress.v6 ++ .v4 ip :: after).findSome? v4? = some ip := by
  rw [List.findSome?_append, findSome?_v6s]
  rfl

end PathMeter.IPAddress
