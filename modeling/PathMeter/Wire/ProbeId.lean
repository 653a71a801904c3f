import PathMeter.Wire.Word

/-!
# Probe identity

A probe is known by the cycle it belongs to and the hop it is aimed at.  Both
travel in the sequence number of an echo request: the hop in the low byte, and
of the cycle only what fits in the high byte.
-/

namespace PathMeter

/-- What a sequence number tells about a probe. -/
structure ProbeId where
  /-- The cycle number modulo 256. -/
  cycle : UInt8
  hop : UInt8
  deriving DecidableEq, Repr

namespace ProbeId

/-- The identity of the probe of a cycle aimed at a hop. -/
def ofCycle (cycle : Nat) (hop : UInt8) : ProbeId :=
  ⟨UInt8.ofNat cycle, hop⟩

/-- The sequence number that carries the identity. -/
def sequence (id : ProbeId) : UInt16 :=
  Wire.word id.cycle id.hop

/-- The identity that a sequence number carries. -/
def ofSequence (s : UInt16) : ProbeId :=
  ⟨Wire.high s, Wire.low s⟩

/-- Whether a probe of this identity may belong to a cycle: the cycles are told
apart only modulo 256. -/
def matchesCycle (id : ProbeId) (cycle : Nat) : Bool :=
  id.cycle = UInt8.ofNat cycle

/-- Of a cycle its number modulo 256 is kept. -/
theorem ofCycle_eq (cycle : Nat) (hop : UInt8) :
    ofCycle cycle hop = ⟨UInt8.ofNat (cycle % 256), hop⟩ := by
  have hcycle : UInt8.ofNat cycle = UInt8.ofNat (cycle % 256) := by
    apply UInt8.toNat_inj.1
    rw [UInt8.toNat_ofNat', UInt8.toNat_ofNat', Nat.mod_mod]
  rw [ofCycle, hcycle]

/-- A sequence number carries its identity faithfully. -/
theorem ofSequence_sequence (id : ProbeId) : ofSequence id.sequence = id := by
  simp [ofSequence, sequence, Wire.high_word, Wire.low_word]

theorem sequence_inj {id id' : ProbeId} : id.sequence = id'.sequence ↔ id = id' := by
  constructor
  · intro h
    rw [← ofSequence_sequence id, h, ofSequence_sequence]
  · exact congrArg sequence

theorem sequence_ofSequence (s : UInt16) : (ofSequence s).sequence = s :=
  Wire.word_high_low s

end ProbeId

end PathMeter
