import PathMeter.Engine.State

/-!
# Readers beside the engine

The results may be read while the engine goes on.  A reader holds back nothing
but the one hop that it is copying: it takes what is said of the run as a whole,
then the hops in order, and entries may be made in between.  `Copied` says which
snapshots can come of this, told by how many entries have been made when each
part is taken.

What the engine shows and returns it copies itself, so that no entry comes in
between.  Such a copy is the snapshot of one ledger (`copied_snapshot`).
-/

namespace PathMeter.Engine.State

/-- The ledger after a number of entries, or the one in force if there are not so
many. -/
def ledgerAt (s : State) (entries : Nat) : Ledger :=
  s.timeline.reverse[entries]?.elim s.ledger (·.ledger)

/-- A ledger from which a single hop may be copied after a number of entries.
Bringing the ledger up to date is one entry for each hop, so that while this
goes on some hops show their new figures already. -/
inductive Found (s : State) (entries : Nat) : Ledger → Prop where
  | entered : Found s entries (s.ledgerAt entries)
  | updated (h : s.ledgerAt (entries + 1) = (s.ledgerAt entries).finalize) :
      Found s entries (s.ledgerAt (entries + 1))

/-- A copy made beside the engine: what is said of the run as a whole is taken
after `entries 0` entries, and the hop at position `n` after `entries n`. -/
structure Copied (s : State) (entries : Nat → Nat) (v : Snapshot) : Prop where
  /-- No part is taken before the one that it follows. -/
  inOrder : ∀ n, entries n ≤ entries (n + 1)
  copied : ∃ turn, (∀ n, s.Found (entries n) (turn n)) ∧ (s.ledgerAt (entries 0)).copy turn = v

/-- A snapshot of one ledger is such a copy. -/
theorem copied_snapshot (s : State) (entries : Nat) :
    s.Copied (fun _ => entries) (s.ledgerAt entries).snapshot :=
  ⟨fun _ => Nat.le_refl _, _, fun _ => .entered, Ledger.copy_self _⟩

end PathMeter.Engine.State
