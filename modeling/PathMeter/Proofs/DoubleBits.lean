import PathMeter.Proofs.ShortestDigits

/-!
# The bits of a double

The bits of a double are read twice: once by `Binary.ofBits`, for writing, and
once by the arithmetic of doubles.  Here both readings are tied to the same
three numbers, the sign, the exponent field and the fraction (`ofBits_parts`,
`unpack_parts`), so the double that arithmetic makes of a sign, a significand
and an exponent (`IsDouble.toFloat`) is the one that these were read off
(`IsDouble.eq_toFloat`).
-/

namespace PathMeter.Decimal

open Float.Model (Format)
open Float.Model.UnpackedFloat

/-- The sign that a flag stands for. -/
def signOf (negative : Bool) : Sign :=
  if negative then .negative else .positive

/-- The bits made of a sign, an exponent field and a fraction. -/
def bitsOf (negative : Bool) (field fraction : Nat) : Nat :=
  (if negative then 2 ^ 63 else 0) + field * 2 ^ 52 + fraction

/-- Every row of 64 bits is made of these three. -/
theorem exists_bitsOf {n : Nat} (h : n < 2 ^ 64) :
    ∃ negative field fraction, field < 2 ^ 11 ∧ fraction < 2 ^ 52 ∧
      n = bitsOf negative field fraction := by
  refine ⟨decide (2 ^ 63 ≤ n), n / 2 ^ 52 % 2 ^ 11, n % 2 ^ 52, by omega, by omega, ?_⟩
  unfold bitsOf
  by_cases hsign : 2 ^ 63 ≤ n
  · rw [if_pos (decide_eq_true hsign)]
    omega
  · rw [if_neg (by simpa using hsign)]
    omega

section Parts

variable (negative : Bool) {field fraction : Nat}

theorem bitsOf_sign (hfield : field < 2 ^ 11) (hfraction : fraction < 2 ^ 52) :
    bitsOf negative field fraction / 2 ^ 63 = if negative then 1 else 0 := by
  unfold bitsOf
  split <;> omega

theorem bitsOf_field (hfield : field < 2 ^ 11) (hfraction : fraction < 2 ^ 52) :
    bitsOf negative field fraction / 2 ^ 52 % 2 ^ 11 = field := by
  unfold bitsOf
  split <;> omega

theorem bitsOf_fraction (field : Nat) (hfraction : fraction < 2 ^ 52) :
    bitsOf negative field fraction % 2 ^ 52 = fraction := by
  unfold bitsOf
  split <;> omega

/-- The value that the three parts stand for. -/
theorem ofBits_parts (hfield : field < 2 ^ 11) (hfraction : fraction < 2 ^ 52) :
    Binary.ofBits (bitsOf negative field fraction) =
      if field = 2047 then if fraction = 0 then .infinite negative else .nan
      else if field = 0 then .finite negative fraction (-1074)
      else .finite negative (2 ^ 52 + fraction) (field - 1075) := by
  have hsign : decide (2 ^ 63 ≤ bitsOf negative field fraction) = negative := by
    unfold bitsOf
    cases negative <;> simp <;> omega
  unfold Binary.ofBits
  simp only [Nat.pow_eq, bitsOf_field negative hfield hfraction,
    bitsOf_fraction negative field hfraction, hsign]

end Parts

/-! ### Arithmetic -/

theorem toNat_packComponents (s : Sign) (exponent : BitVec 11) (mantissa : BitVec 52) :
    (packComponents .binary64 s exponent mantissa).toNat =
      s.toBitVec.toNat * 2 ^ 63 + exponent.toNat * 2 ^ 52 + mantissa.toNat := by
  unfold packComponents
  rw [BitVec.toNat_append, BitVec.toNat_append, ← Nat.shiftLeft_add_eq_or_of_lt mantissa.isLt,
    ← Nat.shiftLeft_add_eq_or_of_lt exponent.isLt, Nat.shiftLeft_eq, Nat.shiftLeft_eq]
  ring

theorem toNat_unpackSign (b : BitVec 64) :
    (@unpackSign .binary64 b).toNat = b.toNat / 2 ^ 63 := by
  have hlt := b.isLt
  show b.toNat >>> 63 % 2 ^ 1 = _
  rw [Nat.shiftRight_eq_div_pow]
  omega

theorem toNat_unpackExponent (b : BitVec 64) :
    (@unpackExponent .binary64 b).toNat = b.toNat / 2 ^ 52 % 2 ^ 11 := by
  show b.toNat >>> 52 % 2 ^ 11 = _
  rw [Nat.shiftRight_eq_div_pow]

theorem toNat_unpackMantissa (b : BitVec 64) :
    (@unpackMantissa .binary64 b).toNat = b.toNat % 2 ^ 52 :=
  rfl

theorem finite_congr {s s' : Sign} {m m' : Nat} {e e' : Int} (hs : s = s') (hm : m = m')
    (he : e = e') (hpos : 0 < m) (hpos' : 0 < m') :
    Float.Model.UnpackedFloat.finite s m e hpos = .finite s' m' e' hpos' := by
  subst hs hm he
  rfl

section Unpack

variable {negative : Bool} {field fraction : Nat} {b : BitVec 64}

theorem unpackSign_eq (hfield : field < 2 ^ 11) (hfraction : fraction < 2 ^ 52)
    (hb : b.toNat = bitsOf negative field fraction) :
    Sign.ofBitVec (@unpackSign .binary64 b) = signOf negative := by
  have hbit : (@unpackSign .binary64 b).toNat = if negative then 1 else 0 := by
    rw [toNat_unpackSign, hb, bitsOf_sign negative hfield hfraction]
  have hzero : @unpackSign .binary64 b = 0#1 ↔ negative = false := by
    rw [← BitVec.toNat_inj, hbit]
    cases negative <;> simp
  unfold Sign.ofBitVec signOf
  simp only [hzero]
  cases negative <;> rfl

/-- What arithmetic makes of the three parts. -/
theorem unpack_parts (hfield : field < 2 ^ 11) (hfraction : fraction < 2 ^ 52)
    (hb : b.toNat = bitsOf negative field fraction) :
    unpack .binary64 b =
      if field = 2047 then if fraction = 0 then .infinity (signOf negative) else .notANumber
      else if field = 0 then
        if h : fraction = 0 then .zero (signOf negative)
        else .finite (signOf negative) fraction (-1074) (Nat.pos_of_ne_zero h)
      else .finite (signOf negative) (2 ^ 52 + fraction) (field - 1075) (by omega) := by
  have hmantissa : (@unpackMantissa .binary64 b).toNat = fraction := by
    rw [toNat_unpackMantissa, hb, bitsOf_fraction negative field hfraction]
  have hexponent : (@unpackExponent .binary64 b).toNat = field := by
    rw [toNat_unpackExponent, hb, bitsOf_field negative hfield hfraction]
  have hsign := unpackSign_eq hfield hfraction hb
  have hspecial : @unpackExponent .binary64 b = -1#11 ↔ field = 2047 := by
    rw [← BitVec.toNat_inj, hexponent]
    rfl
  have hsmall : @unpackExponent .binary64 b = 0#11 ↔ field = 0 := by
    rw [← BitVec.toNat_inj, hexponent]
    rfl
  have hzero : @unpackMantissa .binary64 b = 0#52 ↔ fraction = 0 := by
    rw [← BitVec.toNat_inj, hmantissa]
    rfl
  have hnormal : (1#1 ++ @unpackMantissa .binary64 b).toNat = 2 ^ 52 + fraction := by
    rw [BitVec.toNat_append, ← Nat.shiftLeft_add_eq_or_of_lt (@unpackMantissa .binary64 b).isLt,
      hmantissa]
    rfl
  unfold unpack
  dsimp only
  by_cases h1 : field = 2047
  · rw [if_pos (hspecial.2 h1), if_pos h1]
    simp only [hzero, hsign]
  · rw [if_neg (mt hspecial.1 h1), if_neg h1]
    by_cases h2 : field = 0
    · rw [if_pos (hsmall.2 h2), if_pos h2]
      by_cases h3 : fraction = 0
      · rw [dif_pos (hzero.2 h3), dif_pos h3, hsign]
      · rw [dif_neg (mt hzero.1 h3), dif_neg h3]
        exact finite_congr hsign hmantissa (by rw [hexponent, h2]; rfl) _ _
    · rw [if_neg (mt hsmall.1 h2), if_neg h2]
      exact finite_congr hsign hnormal (by rw [hexponent]; rfl) _ _

end Unpack

/-- Doubles with the same bits are the same double. -/
theorem eq_of_toBits {x y : Float} (h : x.toBits = y.toBits) : x = y := by
  obtain ⟨⟨bits, hvalid⟩⟩ := x
  obtain ⟨⟨bits', hvalid'⟩⟩ := y
  obtain rfl : bits = bits' := h
  rfl

/-- Both readings agree on which doubles are finite. -/
theorem isFinite_iff (x : Float) :
    x.isFinite = true ↔ ∃ negative m e, Binary.ofFloat x = .finite negative m e := by
  obtain ⟨negative, field, fraction, hfield, hfraction, hbits⟩ := exists_bitsOf x.toBits.toNat_lt
  have hunpack : x.toModel.unpack = _ := unpack_parts hfield hfraction hbits
  have hread : Binary.ofFloat x = _ :=
    (congrArg Binary.ofBits hbits).trans (ofBits_parts negative hfield hfraction)
  unfold Float.isFinite Float.Model.isFinite
  rw [hunpack, hread]
  by_cases hfull : field = 2047
  · rw [if_pos hfull, if_pos hfull]
    refine iff_of_false ?_ ?_
    · split <;> exact Bool.false_ne_true
    · rintro ⟨_, _, _, h⟩
      split at h <;> cases h
  · rw [if_neg hfull, if_neg hfull]
    by_cases hzero : field = 0
    · rw [if_pos hzero, if_pos hzero]
      refine iff_of_true ?_ ⟨_, _, _, rfl⟩
      by_cases hnone : fraction = 0
      · rw [dif_pos hnone]
        rfl
      · rw [dif_neg hnone]
        rfl
    · rw [if_neg hzero, if_neg hzero]
      exact iff_of_true rfl ⟨_, _, _, rfl⟩

/-! ### Finite doubles -/

section Finite

variable {negative : Bool} {m : Nat} {e : Int}

/-- The exponent field of a finite double. -/
def fieldOf (m : Nat) (e : Int) : Nat :=
  if m < 2 ^ 52 then 0 else (e + 1075).toNat

theorem fieldOf_lt (h : IsDouble m e) : fieldOf m e < 2047 := by
  have hgreatest := h.greatest
  unfold fieldOf
  split <;> omega

/-- A finite double is read from its parts. -/
theorem ofBits_eq_finite {n : Nat} (hn : n < 2 ^ 64) (h : Binary.ofBits n = .finite negative m e) :
    n = bitsOf negative (fieldOf m e) (m % 2 ^ 52) ∧ (m ≠ 0 → IsDouble m e) := by
  obtain ⟨negative', field, fraction, hfield, hfraction, rfl⟩ := exists_bitsOf hn
  rw [ofBits_parts negative' hfield hfraction] at h
  unfold fieldOf
  split at h
  · split at h <;> simp at h
  · split at h
    · next hfull hzero =>
      obtain ⟨rfl, rfl, rfl⟩ := Binary.finite.inj h
      rw [if_pos hfraction, hzero, Nat.mod_eq_of_lt hfraction]
      exact ⟨rfl, fun hm => ⟨Nat.pos_of_ne_zero hm, by simp only [Nat.pow_eq]; omega, by omega,
        by omega, Or.inr rfl⟩⟩
    · next hfull hzero =>
      obtain ⟨rfl, rfl, rfl⟩ := Binary.finite.inj h
      rw [if_neg (by omega)]
      have hback : ((field : Int) - 1075 + 1075).toNat = field := by omega
      rw [hback, Nat.add_mod_left, Nat.mod_eq_of_lt hfraction]
      exact ⟨rfl, fun _ => ⟨by omega, by simp only [Nat.pow_eq]; omega, by omega, by omega,
        Or.inl (by simp only [Nat.pow_eq]; omega)⟩⟩

theorem isDouble_of_ofFloat {x : Float} (h : Binary.ofFloat x = .finite negative m e)
    (hm : m ≠ 0) : IsDouble m e :=
  (ofBits_eq_finite x.toBits.toNat_lt h).2 hm

/-- A double that arithmetic has made has the bits of its parts. -/
theorem toNat_pack (h : IsDouble m e) (negative : Bool) :
    (pack .binary64 (.finite (signOf negative) m e h.pos)).toNat =
      bitsOf negative (fieldOf m e) (m % 2 ^ 52) := by
  have hlt : m < 2 ^ 53 := h.lt
  have hleast := h.least
  have hgreatest := h.greatest
  have hsign : (signOf negative).toBitVec.toNat * 2 ^ 63 = if negative then 2 ^ 63 else 0 := by
    cases negative <;> rfl
  have hbiased : (e + (Format.binary64.exponentBias : Int) +
      (Format.binary64.mantissaBitsWithoutImplicit : Int)).toNat = (e + 1075).toNat := by
    show (e + (1023 : Nat) + (52 : Nat)).toNat = _
    omega
  unfold pack fieldOf bitsOf
  dsimp only
  rw [hbiased, if_neg (by show ¬ 2 ^ 11 ≤ _; omega)]
  by_cases hm : m < 2 ^ 52
  · have hlog : ¬ m.log2 + 1 = Format.binary64.mantissaBits := by
      have := (Nat.log2_lt h.pos.ne').2 hm
      show ¬ m.log2 + 1 = 53
      omega
    rw [if_neg hlog, if_pos hm, toNat_packComponents, hsign]
    simp
  · have hlog : m.log2 + 1 = Format.binary64.mantissaBits := by
      have hupper := (Nat.log2_lt h.pos.ne').2 hlt
      have hlower := mt (Nat.log2_lt h.pos.ne').1 hm
      show m.log2 + 1 = 53
      omega
    rw [if_pos hlog, if_neg hm, toNat_packComponents, hsign, BitVec.toNat_ofNat,
      BitVec.toNat_ofNat, Nat.mod_eq_of_lt (show (e + 1075).toNat < 2 ^ 11 by omega)]

/-- The double with a sign, a significand and an exponent. -/
def IsDouble.toFloat (h : IsDouble m e) (negative : Bool) : Float :=
  .ofModel (.pack (.finite (signOf negative) m e h.pos))

/-- What arithmetic has made it reads as it was made. -/
theorem IsDouble.unpack_toFloat (h : IsDouble m e) (negative : Bool) :
    (h.toFloat negative).toModel.unpack = .finite (signOf negative) m e h.pos := by
  have hlt : m < 2 ^ 53 := h.lt
  have hleast := h.least
  have hfield := fieldOf_lt h
  refine (unpack_parts (by omega) (Nat.mod_lt _ (by decide)) (toNat_pack h negative)).trans ?_
  rw [if_neg (by omega)]
  unfold fieldOf
  by_cases hm : m < 2 ^ 52
  · obtain rfl : e = -1074 := h.normal.resolve_left (by simp only [Nat.pow_eq]; omega)
    have hpos := h.pos
    rw [if_pos (if_pos hm), dif_neg (by rw [Nat.mod_eq_of_lt hm]; exact hpos.ne')]
    exact finite_congr rfl (Nat.mod_eq_of_lt hm) rfl _ _
  · rw [if_neg (by rw [if_neg hm]; omega)]
    have hmantissa : 2 ^ 52 + m % 2 ^ 52 = m := by omega
    have hexponent : ((if m < 2 ^ 52 then 0 else (e + 1075).toNat : Nat) : Int) - 1075 = e := by
      rw [if_neg hm]
      omega
    exact finite_congr rfl hmantissa hexponent _ _

/-- Two doubles with the same digits are the same double. -/
theorem IsDouble.eq_toFloat {x : Float} (hm : IsDouble m e)
    (h : Binary.ofFloat x = .finite negative m e) : x = hm.toFloat negative := by
  have hbits := (ofBits_eq_finite x.toBits.toNat_lt h).1
  rw [← toNat_pack hm negative] at hbits
  exact eq_of_toBits (UInt64.toNat.inj hbits)

/-- The two zeros. -/
theorem toBits_of_zero {x : Float} (h : Binary.ofFloat x = .finite negative 0 e) :
    x.toBits = if negative then 0x8000000000000000 else 0 := by
  have hbits := (ofBits_eq_finite x.toBits.toNat_lt h).1
  apply UInt64.toNat.inj
  rw [hbits]
  cases negative <;> simp [bitsOf, fieldOf]

theorem IsDouble.neg_toFloat (h : IsDouble m e) (negative : Bool) :
    -h.toFloat negative = h.toFloat (!negative) := by
  show Float.ofModel (.pack (neg (h.toFloat negative).toModel.unpack)) = _
  rw [h.unpack_toFloat]
  cases negative <;> rfl

end Finite

end PathMeter.Decimal
