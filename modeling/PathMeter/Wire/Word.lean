/-!
# Sixteen-bit words

Two bytes make a word, the high one first.  Taking a word apart and putting it
together undo each other: `word_high_low` one way, `high_word` and `low_word`
the other.
-/

namespace PathMeter.Wire

/-- The word made of a high and a low byte. -/
def word (high low : UInt8) : UInt16 :=
  UInt16.ofNat (256 * high.toNat + low.toNat)

/-- The high byte of a word. -/
def high (w : UInt16) : UInt8 :=
  UInt8.ofNat (w.toNat / 256)

/-- The low byte of a word. -/
def low (w : UInt16) : UInt8 :=
  UInt8.ofNat (w.toNat % 256)

/-- A word as two bytes, the high one first. -/
def bytes (w : UInt16) : List UInt8 :=
  [high w, low w]

theorem toNat_word (h l : UInt8) : (word h l).toNat = 256 * h.toNat + l.toNat := by
  have hh := h.toNat_lt
  have hl := l.toNat_lt
  simp only [word, UInt16.toNat_ofNat']
  omega

theorem toNat_high (w : UInt16) : (high w).toNat = w.toNat / 256 := by
  have := w.toNat_lt
  simp only [high, UInt8.toNat_ofNat']
  omega

theorem toNat_low (w : UInt16) : (low w).toNat = w.toNat % 256 := by
  simp only [low, UInt8.toNat_ofNat']
  omega

/-- A word is made of its two bytes. -/
theorem word_high_low (w : UInt16) : word (high w) (low w) = w := by
  apply UInt16.toNat_inj.1
  rw [toNat_word, toNat_high, toNat_low]
  omega

theorem high_word (h l : UInt8) : high (word h l) = h := by
  have := l.toNat_lt
  apply UInt8.toNat_inj.1
  rw [toNat_high, toNat_word]
  omega

theorem low_word (h l : UInt8) : low (word h l) = l := by
  have := l.toNat_lt
  apply UInt8.toNat_inj.1
  rw [toNat_low, toNat_word]
  omega

end PathMeter.Wire
