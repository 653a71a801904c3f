/-!
# Writing to outputs

A text goes to an output in pieces.  An output takes as many bytes of what it
is offered as it likes, so a piece may need several writes.  Writing ends at
the first write that fails, and the receipt says so.
-/

namespace PathMeter.Export

/-- The bytes of a text. -/
def utf8 (s : List Char) : List UInt8 :=
  (String.ofList s).toUTF8.data.toList

theorem utf8_append (s t : List Char) : utf8 (s ++ t) = utf8 s ++ utf8 t := by
  simp [utf8]

/-- Why a text was not written to its end. -/
inductive WriteFault (ε : Type) where
  /-- The output gave a reason. -/
  | refused (reason : ε)
  /-- The output took nothing of what it was offered. -/
  | stuck
  deriving DecidableEq, Repr

/-- A write: the bytes that were offered, and how many of them were taken or why
none were. -/
structure Write (ε : Type) where
  offered : List UInt8
  answer : Except ε Nat

/-- An output: its answer to a write after the earlier ones, newest first.  A
write that is interrupted counts with the one that is made in its place. -/
structure Output (ε : Type) where
  answer : List (Write ε) → List UInt8 → Except ε Nat
  /-- No more is taken than is offered. -/
  answer_le : ∀ {past offered n}, answer past offered = .ok n → n ≤ offered.length

/-- Writing to an output.  It knows the writes so far, newest first, and ends
where one fails. -/
abbrev Writing (ε : Type) := ExceptT (WriteFault ε) (StateM (List (Write ε)))

/-- What came of writing: whether it went to its end, and the writes in
order. -/
structure Receipt (ε : Type) where
  result : Except (WriteFault ε) Unit
  writes : List (Write ε)

variable {ε : Type}

namespace Write

/-- How many bytes a write passed on. -/
def count (w : Write ε) : Nat :=
  match w.answer with
  | .ok n => n
  | .error _ => 0

/-- The bytes that a write passed on. -/
def taken (w : Write ε) : List UInt8 :=
  w.offered.take w.count

/-- How a write failed, if it did. -/
def fault (w : Write ε) : Option (WriteFault ε) :=
  match w.answer with
  | .ok 0 => some .stuck
  | .ok (_ + 1) => none
  | .error reason => some (.refused reason)

theorem taken_ok (bytes : List UInt8) (n : Nat) :
    (Write.mk bytes (.ok n) : Write ε).taken = bytes.take n :=
  rfl

/-- A write that failed took nothing. -/
theorem taken_of_fault {w : Write ε} {fault : WriteFault ε} (h : w.fault = some fault) :
    w.taken = [] := by
  have hcount : w.count = 0 := by
    unfold Write.fault at h
    unfold count
    split at h
    · next hzero => rw [hzero]
    · cases h
    · next hreason => rw [hreason]
  rw [taken, hcount, List.take_zero]

end Write

namespace Output

/-- Makes one write. -/
def offer (out : Output ε) (bytes : List UInt8) : Writing ε (Except ε Nat) :=
  modifyGet fun past => (out.answer past bytes, ⟨bytes, out.answer past bytes⟩ :: past)

theorem run_offer (out : Output ε) (bytes : List UInt8) (past : List (Write ε)) :
    (out.offer bytes).run.run past =
      (.ok (out.answer past bytes), ⟨bytes, out.answer past bytes⟩ :: past) :=
  rfl

/-- Writes bytes, by as many writes as it takes. -/
def writeAll (out : Output ε) : List UInt8 → Writing ε Unit
  | [] => pure ()
  | b :: rest => do
    match ← out.offer (b :: rest) with
    | .ok 0 => throw .stuck
    | .ok (n + 1) => out.writeAll (rest.drop n)
    | .error reason => throw (.refused reason)
termination_by bytes => bytes.length

/-- Writes the pieces of a text in order. -/
def writePieces (out : Output ε) (pieces : List (List Char)) : Writing ε Unit :=
  pieces.forM fun piece => out.writeAll (utf8 piece)

end Output

/-- What follows is written only if what comes before it was. -/
theorem Writing.run_bind {α β : Type} (p : Writing ε α) (f : α → Writing ε β)
    (past : List (Write ε)) :
    (p >>= f).run.run past =
      match p.run.run past with
      | (.ok a, past') => (f a).run.run past'
      | (.error fault, past') => (.error fault, past') := by
  rw [ExceptT.run_bind, StateT.run_bind]
  rcases p.run.run past with ⟨_ | _, _⟩ <;> rfl

/-- The receipt of writing to an output that nothing was written to before. -/
def Writing.receipt (p : Writing ε Unit) : Receipt ε :=
  let (result, past) := p.run.run []
  ⟨result, past.reverse⟩

/-- All bytes that the output took, in order. -/
def Receipt.taken (r : Receipt ε) : List UInt8 :=
  r.writes.flatMap Write.taken

end PathMeter.Export
