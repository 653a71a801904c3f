import PathMeter.Wire.Word

/-!
# The Internet checksum

A message is summed as sixteen-bit words in ones'-complement arithmetic, an
odd last byte counting as the high half of a word.  The checksum is the
complement of that sum over all words but the second, which is where ICMP
keeps the checksum itself.

`sealed` writes the checksum into a message; `checksum_field` says that what
stood there before does not matter.
-/

namespace PathMeter.Wire

/-- The words of a message; an odd last byte is followed by a zero. -/
def words : List UInt8 → List Nat
  | [] => []
  | [b] => [256 * b.toNat]
  | h :: l :: rest => (256 * h.toNat + l.toNat) :: words rest

/-- Folds the carries of a sum back in until it fits in sixteen bits. -/
def foldCarries (n : Nat) : Nat :=
  if h : n < 65536 then n else foldCarries (n / 65536 + n % 65536)
termination_by n
decreasing_by omega

/-- The sum of numbers in sixteen-bit ones'-complement arithmetic. -/
def onesSum (ws : List Nat) : Nat :=
  foldCarries (ws.foldl (· + ·) 0)

/-- The words that a checksum covers: all but the second. -/
def coveredWords (message : List UInt8) : List Nat :=
  (words message).eraseIdx 1

/-- The checksum of an ICMP message, whatever its checksum field holds. -/
def checksum (message : List UInt8) : UInt16 :=
  UInt16.ofNat (65535 - onesSum (coveredWords message))

/-- A message with its checksum written into the checksum field.  Fewer than
four bytes have no such field and stay as they are. -/
def sealed : List UInt8 → List UInt8
  | a :: b :: _ :: _ :: rest =>
    let sum := checksum (a :: b :: 0 :: 0 :: rest)
    a :: b :: high sum :: low sum :: rest
  | short => short

/-- The checksum that a message carries, if it is long enough to carry one. -/
def carriedChecksum? : List UInt8 → Option UInt16
  | _ :: _ :: h :: l :: _ => some (word h l)
  | _ => none

/-- The checksum does not look at the checksum field. -/
theorem checksum_field (a b h l h' l' : UInt8) (rest : List UInt8) :
    checksum (a :: b :: h :: l :: rest) = checksum (a :: b :: h' :: l' :: rest) := by
  simp [checksum, coveredWords, words]

theorem length_sealed (m : List UInt8) : (sealed m).length = m.length := by
  unfold sealed
  split <;> simp

end PathMeter.Wire
