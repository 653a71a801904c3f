import PathMeter.Decimal.Binary
import PathMeter.Duration

/-!
# Round-trip samples

The figures that sum up the round trips of a hop: the shortest and the longest
exactly, mean and standard deviation in floating point over the samples in the
order they came in.
-/

namespace PathMeter

/-- The figures that sum up a sample of round trips. -/
structure Sample where
  shortest : Duration
  longest : Duration
  mean : Duration
  /-- Standard deviation, with the whole sample as the population. -/
  spread : Duration
  deriving DecidableEq, Repr

namespace Sample

/-- Before the first round trip: nothing has a shortest member. -/
def empty : Sample :=
  ⟨Duration.limit, 0, 0, 0⟩

/-- A sum of doubles, from left to right. -/
def sum (xs : List Float) : Float :=
  xs.foldl (· + ·) 0

/-- A double as a whole number of nanoseconds. -/
def nearest (x : Float) : Duration :=
  (Decimal.Binary.ofFloat x).nearestWord

/-- The mean of a sample, in nanoseconds. -/
def meanOf (samples : List Duration) : Float :=
  sum (samples.map Float.ofNat) / Float.ofNat samples.length

/-- The mean squared distance from the mean. -/
def varianceOf (samples : List Duration) : Float :=
  let mean := meanOf samples
  sum (samples.map fun d => (Float.ofNat d - mean) * (Float.ofNat d - mean)) /
    Float.ofNat samples.length

/-- The figures of a sample. -/
def of : List Duration → Sample
  | [] => empty
  | d :: rest =>
    { shortest := rest.foldl min d
      longest := rest.foldl max d
      mean := nearest (meanOf (d :: rest))
      spread := nearest (varianceOf (d :: rest)).sqrt }

end Sample

end PathMeter
