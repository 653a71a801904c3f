import PathMeter.Json.Document
import PathMeter.Json.Token
import PathMeter.Proofs.DecimalReading
import PathMeter.Proofs.Digits

/-!
# Numbers are read back as they were written

Whatever number is written, its text is that of a numeral in the form that
readers ask for (`Numeral.IsProper`), and such a text is taken apart into the
same numeral (`numeral?_text`).  What is left is to see which number the
numeral means: a natural number its own digits (`naturalNumeral`), a double
the decimal number that was found for it (`Spells`), which is read as that
double (`exists_numeral_of_float`).
-/

namespace PathMeter.Decimal

namespace Numeral

/-- A point and the digits after it. -/
def fractionText : Option (List Char) → List Char
  | none => []
  | some ds => '.' :: ds

/-- A power of ten, always with its sign. -/
def powerText : Option (Bool × List Char) → List Char
  | none => []
  | some (negative, ds) => 'e' :: (if negative then '-' else '+') :: ds

/-- The text of a numeral. -/
def text (n : Numeral) : List Char :=
  signText n.negative ++ (n.whole ++ (fractionText n.fraction ++ powerText n.power))

/-- A numeral with digits in each of its rows and no leading zero. -/
structure IsProper (n : Numeral) : Prop where
  whole : n.whole ≠ [] ∧ ∀ c ∈ n.whole, isDigit c = true
  unpadded : n.whole.length = 1 ∨ n.whole.head? ≠ some '0'
  fraction : ∀ ds ∈ n.fraction, ds ≠ [] ∧ ∀ c ∈ ds, isDigit c = true
  power : ∀ p ∈ n.power, p.2 ≠ [] ∧ ∀ c ∈ p.2, isDigit c = true

theorem power?_powerText {power : Option (Bool × List Char)}
    (h : ∀ p ∈ power, p.2 ≠ [] ∧ ∀ c ∈ p.2, isDigit c = true) :
    power? (powerText power) = some power := by
  rcases power with _ | ⟨negative, ds⟩
  · rfl
  · obtain ⟨hne, hall⟩ := h _ rfl
    have hdigits : ds ≠ [] ∧ ds.all isDigit = true := ⟨hne, List.all_eq_true.2 hall⟩
    cases negative
    · show (if ds ≠ [] ∧ ds.all isDigit then some (some (false, ds)) else none) = _
      rw [if_pos hdigits]
    · show (if ds ≠ [] ∧ ds.all isDigit then some (some (true, ds)) else none) = _
      rw [if_pos hdigits]

theorem head?_powerText (power : Option (Bool × List Char)) :
    ∀ c ∈ (powerText power).head?, isDigit c = false := by
  rcases power with _ | ⟨negative, ds⟩
  · simp [powerText]
  · rintro c ⟨⟩
    rfl

/-- A numeral without its sign is taken apart into its rows. -/
theorem unsigned?_rows {n : Numeral} (h : n.IsProper) :
    unsigned? n.negative (n.whole ++ (fractionText n.fraction ++ powerText n.power)) = some n := by
  obtain ⟨negative, whole, fraction, power⟩ := n
  have hpower := power?_powerText h.power
  dsimp only at hpower ⊢
  unfold unsigned?
  cases fraction with
  | none =>
      rw [fractionText, List.nil_append, spanDigits_append h.whole.2 (head?_powerText power)]
      dsimp only
      split
      · next rest hrest =>
        rcases power with _ | ⟨sign, ds⟩
        · simp [powerText] at hrest
        · simp [powerText] at hrest
      · rw [hpower]
        rfl
  | some ds =>
      rw [spanDigits_append h.whole.2 (by rintro c ⟨⟩; rfl)]
      have hspan := spanDigits_append (h.fraction ds rfl).2 (head?_powerText power)
      dsimp only
      split
      · next rest hrest =>
        have hrest' : rest = ds ++ powerText power := (List.cons.inj hrest).2.symm
        rw [hrest', hspan, hpower]
        rfl
      · next hrest => exact absurd rfl (hrest _)

/-- The digits of a proper numeral, its signs and marks. -/
theorem mem_text {n : Numeral} (h : n.IsProper) {c : Char} (hc : c ∈ n.text) :
    isDigit c = true ∨ c ∈ ['-', '+', '.', 'e'] := by
  obtain ⟨negative, whole, fraction, power⟩ := n
  simp only [text, List.mem_append] at hc
  rcases hc with hc | hc | hc | hc
  · cases negative <;> simp_all [signText]
  · exact Or.inl (h.whole.2 c hc)
  · cases fraction with
    | none => simp [fractionText] at hc
    | some ds =>
        rcases List.mem_cons.1 hc with rfl | hc
        · simp
        · exact Or.inl ((h.fraction ds rfl).2 c hc)
  · rcases power with _ | ⟨sign, ds⟩
    · simp [powerText] at hc
    · simp only [powerText, List.mem_cons] at hc
      rcases hc with rfl | rfl | hc
      · simp
      · cases sign <;> simp
      · exact Or.inl ((h.power _ rfl).2 c hc)

theorem text_ne_nil {n : Numeral} (h : n.IsProper) : n.text ≠ [] := by
  unfold text
  simp [h.whole.1]

/-- The number that a numeral means, without its sign. -/
def absolute (n : Numeral) : ℚ :=
  value n.allDigits * 10 ^ n.scale

/-- A numeral next to a double is read as it. -/
theorem toFloat_eq {n : Numeral} {m : Nat} {e : Int} (h : IsDouble m e)
    (hx : (Span.around m e).Contains n.absolute) : n.toFloat = h.toFloat n.negative := by
  unfold toFloat
  rw [ofScientific_eq h hx]
  cases n.negative with
  | false => rfl
  | true => exact h.neg_toFloat false

end Numeral

end PathMeter.Decimal

namespace PathMeter.Json

open PathMeter.Decimal

/-! ### Texts of numerals -/

theorem numeral?_rows {n : Numeral} {rows : List Char} (h : n.IsProper)
    (hrows : Numeral.unsigned? n.negative rows = some n) (hhead : rows.head? ≠ some '-') :
    numeral? (signText n.negative ++ rows) = some n := by
  unfold numeral?
  split
  next negative rest hsplit =>
  have hsign : negative = n.negative ∧ rest = rows := by
    cases hneg : n.negative with
    | true =>
        rw [hneg] at hsplit
        obtain ⟨rfl, rfl⟩ := Prod.mk.inj hsplit
        exact ⟨rfl, rfl⟩
    | false =>
        rw [hneg, show signText false ++ rows = rows from rfl] at hsplit
        split at hsplit
        · exact absurd rfl hhead
        · obtain ⟨rfl, rfl⟩ := Prod.mk.inj hsplit
          exact ⟨rfl, rfl⟩
  rw [hsign.1, hsign.2, hrows]
  exact if_pos ⟨h.whole.1, fun hnil => (h.fraction [] hnil).1 rfl, h.unpadded⟩

theorem numeral?_text {n : Numeral} (h : n.IsProper) : numeral? n.text = some n := by
  refine numeral?_rows h (Numeral.unsigned?_rows h) ?_
  obtain ⟨c, ds, hwhole⟩ := List.exists_cons_of_ne_nil h.whole.1
  have hdigit : isDigit c = true := h.whole.2 c (by rw [hwhole]; exact List.mem_cons_self)
  rw [hwhole]
  rintro ⟨⟩
  simp [isDigit] at hdigit

/-- A proper numeral is no word. -/
theorem ofRun?_text {n : Numeral} (h : n.IsProper) : Token.ofRun? n.text = some (.number n) := by
  have hword : ∀ {word : List Char} {c : Char}, c ∈ word → isDigit c = false →
      c ∉ ['-', '+', '.', 'e'] → n.text ≠ word := by
    rintro word c hc hdigit hmark rfl
    rcases Numeral.mem_text h hc with hd | hd
    · rw [hdigit] at hd
      exact absurd hd (by decide)
    · exact hmark hd
  unfold Token.ofRun?
  rw [if_neg (hword (c := 'u') (by decide) rfl (by decide)),
    if_neg (hword (c := 'u') (by decide) rfl (by decide)),
    if_neg (hword (c := 's') (by decide) rfl (by decide)), numeral?_text h]
  rfl

/-- A numeral goes on to its end. -/
theorem endsRun_text {n : Numeral} (h : n.IsProper) : n.text.any Reading.endsRun = false := by
  rw [List.any_eq_false]
  intro c hc hends
  rcases Numeral.mem_text h hc with hc | hc
  · rw [forall_isDigit (P := fun c => Reading.endsRun c = false) (by decide) hc] at hends
    exact absurd hends (by decide)
  · simp only [List.mem_cons, List.not_mem_nil, or_false] at hc
    rcases hc with rfl | rfl | rfl | rfl <;> exact absurd hends (by decide)

/-! ### Natural numbers -/

/-- The numeral that a natural number is written as. -/
def naturalNumeral (n : Nat) : Numeral :=
  ⟨false, digits n, none, none⟩

theorem text_naturalNumeral (n : Nat) : (naturalNumeral n).text = digits n := by
  simp [naturalNumeral, Numeral.text, signText, Numeral.fractionText, Numeral.powerText]

theorem isProper_naturalNumeral (n : Nat) : (naturalNumeral n).IsProper where
  whole := ⟨digits_ne_nil n, isDigit_of_mem_digits n⟩
  unpadded := unpadded_digits n
  fraction := by rintro ds ⟨⟩
  power := by rintro p ⟨⟩

theorem toNat?_naturalNumeral (n : Nat) : (naturalNumeral n).toNat? = some n :=
  congrArg some (value_digits n)

/-! ### Doubles -/

/-- A numeral that is written for a number. -/
structure Spells (n : Numeral) (negative : Bool) (written : List Char) (y : ℚ) : Prop where
  proper : n.IsProper
  negative_eq : n.negative = negative
  text_eq : n.text = signText negative ++ written
  absolute_eq : n.absolute = y

private theorem zero_digits : ['0'] ≠ [] ∧ ∀ c ∈ ['0'], isDigit c = true :=
  ⟨List.cons_ne_nil _ _, List.forall_mem_singleton.2 rfl⟩

/-- A number without a fraction, written out in full: zeros up to the point, and
one behind it. -/
theorem spells_zeros (negative : Bool) {c : Nat} (hc : c ≠ 0) (k : Nat) :
    ∃ n, Spells n negative (digits c ++ List.replicate k '0' ++ ['.', '0']) (c * 10 ^ k) := by
  have hdigit : ∀ d ∈ digits c ++ List.replicate k '0', isDigit d = true := by
    intro d hd
    rcases List.mem_append.1 hd with hd | hd
    · exact isDigit_of_mem_digits c d hd
    · rw [List.eq_of_mem_replicate hd]
      rfl
  obtain ⟨d, ds, hdigits⟩ := List.exists_cons_of_ne_nil (digits_ne_nil c)
  have hhead : (digits c ++ List.replicate k '0').head? ≠ some '0' := by
    have hfirst := head?_digits hc
    rw [hdigits] at hfirst ⊢
    exact hfirst
  have hvalue : value (digits c ++ List.replicate k '0' ++ ['0']) = c * 10 ^ (k + 1) := by
    rw [List.append_assoc, ← List.replicate_succ', value_append_zeros, value_digits]
  refine ⟨⟨negative, digits c ++ List.replicate k '0', some ['0'], none⟩, ?_, rfl, ?_, ?_⟩
  · refine ⟨⟨by simp [hdigits], hdigit⟩, Or.inr hhead, ?_, by rintro p ⟨⟩⟩
    rintro ds ⟨⟩
    exact zero_digits
  · simp [Numeral.text, Numeral.fractionText, Numeral.powerText]
  · show (value (digits c ++ List.replicate k '0' ++ ['0']) : ℚ) * 10 ^ (0 - 1 : Int) = _
    rw [hvalue, zpow_sub₀ (by norm_num)]
    push_cast
    ring

/-- A number with a fraction, written out in full: the point stands before the
last digits. -/
theorem spells_withPoint (negative : Bool) {c : Nat} (hc : c ≠ 0) {places : Nat}
    (hplaces : places ≠ 0) :
    ∃ n, Spells n negative (withPoint places c) (c * 10 ^ (-places : Int)) := by
  have hlength := le_length_padded (places + 1) c
  have hdigit := isDigit_of_mem_padded (places + 1) c
  have hvalue := value_padded (places + 1) c
  have hlead : (padded (places + 1) c).length = places + 1 ∨
      (padded (places + 1) c).head? ≠ some '0' := by
    rcases Nat.le_total (digits c).length (places + 1) with hshort | hlong
    · exact Or.inl (length_padded hshort)
    · rw [padded_eq_digits hlong]
      exact Or.inr (head?_digits hc)
  unfold withPoint
  rw [if_neg hplaces]
  dsimp only
  generalize padded (places + 1) c = ds at *
  refine ⟨⟨negative, ds.take (ds.length - places), some (ds.drop (ds.length - places)), none⟩,
    ?_, rfl, ?_, ?_⟩
  · refine ⟨⟨?_, fun d hd => hdigit d (List.mem_of_mem_take hd)⟩, ?_, ?_, by rintro p ⟨⟩⟩
    · apply List.ne_nil_of_length_pos
      rw [List.length_take]
      omega
    · dsimp only
      rw [List.length_take, List.head?_take, if_neg (by omega)]
      rcases hlead with hlead | hlead
      · exact Or.inl (by omega)
      · exact Or.inr hlead
    · rintro rest ⟨⟩
      refine ⟨?_, fun d hd => hdigit d (List.mem_of_mem_drop hd)⟩
      apply List.ne_nil_of_length_pos
      rw [List.length_drop]
      omega
  · simp [Numeral.text, Numeral.fractionText, Numeral.powerText]
  · have hscale : (0 - (ds.drop (ds.length - places)).length : Int) = -places := by
      rw [List.length_drop]
      omega
    show (value (ds.take (ds.length - places) ++ ds.drop (ds.length - places)) : ℚ) *
      10 ^ (0 - (ds.drop (ds.length - places)).length : Int) = _
    rw [List.take_append_drop, hvalue, hscale]

theorem spells_fullText (negative : Bool) {s : Scientific} (hs : s.significand ≠ 0) :
    ∃ n, Spells n negative (fullText s) s.value := by
  unfold fullText Scientific.plain Scientific.value
  by_cases hexponent : 0 ≤ s.exponent
  · obtain ⟨k, hk⟩ := Int.eq_ofNat_of_zero_le hexponent
    rw [if_pos hexponent, if_pos hexponent, hk, Int.toNat_natCast, zpow_natCast]
    exact spells_zeros negative hs k
  · obtain ⟨k, hk⟩ := Int.eq_ofNat_of_zero_le (show 0 ≤ -s.exponent by omega)
    rw [if_neg hexponent, if_neg hexponent, hk, Int.toNat_natCast,
      show s.exponent = -(k : Int) by omega]
    exact spells_withPoint negative hs (by omega)

theorem scale_of_power (negative : Bool) (whole : List Char) (fraction : Option (List Char))
    (power : Int) :
    (Numeral.mk negative whole fraction (some (decide (power < 0), digits power.natAbs))).scale =
      power - (fraction.getD []).length := by
  unfold Numeral.scale
  by_cases hneg : power < 0
  · rw [decide_eq_true hneg]
    dsimp only
    rw [value_digits, Int.ofNat_natAbs_of_nonpos (Int.le_of_lt hneg), Int.neg_neg]
  · rw [decide_eq_false hneg]
    dsimp only
    rw [value_digits, Int.natAbs_of_nonneg (Int.not_lt.1 hneg)]

/-- A number written with a power of ten: one digit stands before the point. -/
theorem spells_powerText (negative : Bool) (s : Scientific) :
    ∃ n, Spells n negative
      (powerText s (s.exponent + (digits s.significand).length - 1)) s.value := by
  obtain ⟨d, ds, hdigits⟩ := List.exists_cons_of_ne_nil (digits_ne_nil s.significand)
  have hdigit := isDigit_of_mem_digits s.significand
  have hvalue := value_digits s.significand
  have hpower : s.exponent + (digits s.significand).length - 1 = s.exponent + ds.length := by
    rw [hdigits, List.length_cons]
    omega
  rw [hpower]
  generalize hp : s.exponent + ds.length = power
  have hproper : ∀ p ∈ some (decide (power < 0), digits power.natAbs),
      p.2 ≠ [] ∧ ∀ c ∈ p.2, isDigit c = true := by
    rintro p ⟨⟩
    exact ⟨digits_ne_nil _, isDigit_of_mem_digits _⟩
  have hmark : (if power < 0 then '-' else '+') = if decide (power < 0) then '-' else '+' := by
    simp
  unfold powerText Scientific.value
  rw [hdigits] at hdigit hvalue ⊢
  rw [hmark]
  cases ds with
  | nil =>
      refine ⟨⟨negative, [d], none, some (decide (power < 0), digits power.natAbs)⟩, ?_, rfl,
        ?_, ?_⟩
      · exact ⟨⟨List.cons_ne_nil _ _, hdigit⟩, Or.inl rfl, by rintro ds ⟨⟩, hproper⟩
      · rfl
      · rw [Numeral.absolute, scale_of_power, ← hp]
        show (value [d] : ℚ) * 10 ^ (s.exponent + (0 : Nat) - (0 : Nat) : Int) = _
        rw [hvalue, Int.add_sub_cancel]
  | cons d' ds =>
      refine ⟨⟨negative, [d], some (d' :: ds), some (decide (power < 0), digits power.natAbs)⟩,
        ?_, rfl, ?_, ?_⟩
      · refine ⟨⟨List.cons_ne_nil _ _, ?_⟩, Or.inl rfl, ?_, hproper⟩
        · intro c hc
          exact hdigit c (List.mem_cons.2 (Or.inl (List.mem_singleton.1 hc)))
        · rintro rest ⟨⟩
          exact ⟨List.cons_ne_nil _ _, fun c hc => hdigit c (List.mem_cons_of_mem _ hc)⟩
      · rfl
      · rw [Numeral.absolute, scale_of_power, ← hp]
        show (value (d :: d' :: ds) : ℚ) *
          10 ^ (s.exponent + (d' :: ds).length - (d' :: ds).length : Int) = _
        rw [hvalue, Int.add_sub_cancel]

theorem spells_scientificText (negative : Bool) {s : Scientific} (hs : s.significand ≠ 0) :
    ∃ n, Spells n negative (scientificText s) s.value := by
  unfold scientificText
  dsimp only
  split
  · exact spells_fullText negative hs
  · exact spells_powerText negative s

/-- **A finite double is read back** from the text it is written as. -/
theorem exists_numeral_of_float {x : Float} (hx : x.isFinite = true) :
    ∃ n : Numeral, n.IsProper ∧ n.text = floatText x ∧ n.toFloat = x := by
  obtain ⟨negative, m, e, hread⟩ := (isFinite_iff x).1 hx
  unfold floatText
  rw [hread]
  dsimp only
  by_cases hm : m = 0
  · subst hm
    rw [if_pos rfl]
    refine ⟨⟨negative, ['0'], some ['0'], none⟩, ?_, rfl, ?_⟩
    · exact ⟨zero_digits, Or.inl rfl, by rintro ds ⟨⟩; exact zero_digits, by rintro p ⟨⟩⟩
    · apply eq_of_toBits
      rw [toBits_of_zero hread]
      cases negative <;> decide +kernel
  · rw [if_neg hm]
    have hdouble := isDouble_of_ofFloat hread hm
    have hin := contains_shortest hdouble
    have hsignificand : (shortest m e).significand ≠ 0 := by
      intro hzero
      have hpos := pos_of_contains hdouble.pos hin
      rw [Scientific.value, hzero] at hpos
      simp at hpos
    obtain ⟨n, hn⟩ := spells_scientificText negative hsignificand
    rw [← hn.absolute_eq] at hin
    refine ⟨n, hn.proper, hn.text_eq, ?_⟩
    rw [Numeral.toFloat_eq hdouble hin, hn.negative_eq]
    exact (hdouble.eq_toFloat hread).symm

/-- What is no finite number is written as `null`. -/
theorem floatText_of_not_isFinite {x : Float} (hx : x.isFinite = false) :
    floatText x = ['n', 'u', 'l', 'l'] := by
  unfold floatText
  split
  · next negative m e hread =>
    rw [(isFinite_iff x).2 ⟨negative, m, e, hread⟩] at hx
    exact absurd hx (by decide)
  · rfl

end PathMeter.Json
