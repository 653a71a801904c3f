/-!
# Columns

Texts set in columns of a given width, counted in characters.  A text that is
too long for its column is kept whole.
-/

namespace PathMeter.Text

/-- A text moved to the right end of a column. -/
def flushRight (width : Nat) (s : List Char) : List Char :=
  List.replicate (width - s.length) ' ' ++ s

/-- A text at the left end of a column. -/
def flushLeft (width : Nat) (s : List Char) : List Char :=
  s ++ List.replicate (width - s.length) ' '

end PathMeter.Text
