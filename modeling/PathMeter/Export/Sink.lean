import PathMeter.Export.Output

/-!
# Outputs that run full

An output with limited room takes bytes until it is full; what fits of the
write that fills it is still taken, and every later write fails.
-/

namespace PathMeter.Export

namespace Output

/-- An output that takes everything. -/
def unlimited : Output Empty where
  answer _ offered := .ok offered.length
  answer_le h := Nat.le_of_eq (Except.ok.inj h).symm

/-- The number of bytes that writes passed on. -/
def spent {ε : Type} : List (Write ε) → Nat
  | [] => 0
  | w :: past => w.count + spent past

/-- An output with room for a number of bytes. -/
def limited (room : Nat) : Output Unit where
  answer past offered :=
    let left := room - spent past
    if left = 0 then .error () else .ok (min left offered.length)
  answer_le h := by
    dsimp only at h
    split at h
    · cases h
    · exact Except.ok.inj h ▸ Nat.min_le_right _ _

section Limited

variable {room n : Nat} {past : List (Write Unit)} {offered : List UInt8}

theorem answer_full (h : room ≤ spent past) : (limited room).answer past offered = .error () :=
  if_pos (Nat.sub_eq_zero_of_le h)

theorem answer_room (h : spent past < room) :
    (limited room).answer past offered = .ok (min (room - spent past) offered.length) :=
  if_neg (Nat.sub_ne_zero_of_lt h)

/-- No more is taken than there is room for. -/
theorem le_room (h : (limited room).answer past offered = .ok n) : n ≤ room - spent past := by
  rcases Nat.lt_or_ge (spent past) room with hroom | hfull
  · rw [answer_room hroom] at h
    exact Except.ok.inj h ▸ Nat.min_le_left _ _
  · rw [answer_full hfull] at h
    cases h

/-- Only a full output fails. -/
theorem full_of_fault {fault : WriteFault Unit} (hoffered : offered ≠ [])
    (h : (Write.mk offered ((limited room).answer past offered)).fault = some fault) :
    room ≤ spent past := by
  rcases Nat.lt_or_ge (spent past) room with hroom | hfull
  · -- some of the bytes would have been taken
    have hlength := List.length_pos_iff.2 hoffered
    obtain ⟨n, hn⟩ : ∃ n, min (room - spent past) offered.length = n + 1 :=
      Nat.exists_eq_add_one.2 (by omega)
    rw [answer_room hroom, hn] at h
    cases h
  · exact hfull

end Limited

end Output

/-- What an output with limited room holds at the end of an export. -/
structure Sink where
  taken : Array UInt8
  /-- Whether the export reported failure. -/
  failed : Bool
  deriving Repr

/-- The text that bytes make up, where the bytes are the start of a text: a last
character that is cut off shows as the replacement character. -/
def lossyText (bytes : Array UInt8) : String :=
  let whole (n : Nat) : Option String :=
    String.fromUTF8? ⟨bytes.take (bytes.size - n)⟩
  match whole 0 with
  | some s => s
  | none => (((whole 1).or (whole 2)).or (whole 3)).getD "" ++ "\ufffd"

end PathMeter.Export
