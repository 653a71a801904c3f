/-!
# Durations and instants

A duration counts whole nanoseconds.  Instants of the measuring clock are
durations since the engine was built, so both share one type and add without
conversion.  The longest duration doubles as "no minimum yet": a hop that has
never answered shows it as its shortest round trip.

The text formats know durations as whole microseconds; `ofMicros_wholeMicros`
says what survives that grid.
-/

namespace PathMeter

/-- A span of time in whole nanoseconds. -/
abbrev Duration := Nat

namespace Duration

/-- One microsecond. -/
def microsecond : Duration := 1000

/-- One millisecond. -/
def millisecond : Duration := 1000000

/-- One second. -/
def second : Duration := 1000000000

/-- The longest duration: one nanosecond less than `2 ^ 64` seconds. -/
def limit : Duration := Nat.pow 2 64 * second - 1

/-- The number of microseconds that stands for every duration too long to be
counted in microseconds. -/
def microLimit : Nat := Nat.pow 2 64 - 1

/-- Whole microseconds of a duration, at most `microLimit`. -/
def wholeMicros (d : Duration) : Nat :=
  min (d / microsecond) microLimit

/-- The duration that a count of microseconds stands for: `microLimit` is the
longest duration. -/
def ofMicros (n : Nat) : Duration :=
  if n = microLimit then limit else n * microsecond

/-- The duration of a count of milliseconds. -/
def ofMillis (n : Nat) : Duration :=
  n * millisecond

/-- Whole milliseconds of a duration. -/
def wholeMillis (d : Duration) : Nat :=
  d / millisecond

/-- Down to the microsecond grid and back: a duration of `microLimit`
microseconds or more becomes the longest one, any other loses its fraction of
a microsecond. -/
theorem ofMicros_wholeMicros (d : Duration) :
    ofMicros (wholeMicros d) =
      if microLimit * microsecond ≤ d then limit else d / microsecond * microsecond := by
  have hdiv : microLimit ≤ d / microsecond ↔ microLimit * microsecond ≤ d :=
    Nat.le_div_iff_mul_le (by decide)
  unfold ofMicros wholeMicros
  by_cases h : microLimit * microsecond ≤ d
  · rw [if_pos h, Nat.min_eq_right (hdiv.2 h), if_pos rfl]
  · have hlt : d / microsecond < microLimit := Nat.lt_of_not_le (fun hle => h (hdiv.1 hle))
    rw [if_neg h, Nat.min_eq_left (Nat.le_of_lt hlt), if_neg (Nat.ne_of_lt hlt)]

end Duration

end PathMeter
