/-!
# Blank characters

The characters that count as white space around a target name or inside a
date: the 25 code points with the Unicode property `White_Space`.
`trim` takes them off both ends of a text.
-/

namespace PathMeter.Text

/-- The code points with the property `White_Space`. -/
def blanks : List Nat :=
  [0x09, 0x0A, 0x0B, 0x0C, 0x0D, 0x20, 0x85, 0xA0, 0x1680,
   0x2000, 0x2001, 0x2002, 0x2003, 0x2004, 0x2005, 0x2006, 0x2007, 0x2008, 0x2009, 0x200A,
   0x2028, 0x2029, 0x202F, 0x205F, 0x3000]

/-- Whether a character is white space. -/
def isBlank (c : Char) : Bool :=
  blanks.contains c.toNat

/-- A text without the white space it starts with. -/
def trimStart (s : List Char) : List Char :=
  s.dropWhile isBlank

/-- A text without the white space at its two ends. -/
def trim (s : List Char) : List Char :=
  (trimStart (trimStart s).reverse).reverse

/-- Nothing is taken off a text that starts with no white space. -/
theorem trimStart_of_head? {s : List Char} (hs : ∀ c ∈ s.head?, isBlank c = false) :
    trimStart s = s := by
  cases s with
  | nil => rfl
  | cons c s =>
    have hblank : ¬ isBlank c = true := by
      rw [hs c rfl]
      decide
    exact List.dropWhile_cons_of_neg hblank

end PathMeter.Text
