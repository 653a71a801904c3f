import PathMeter.Hop
import PathMeter.Time.Timestamp

/-!
# Snapshots

A snapshot is a copy of everything that is known about a run at one instant.
Its path ends at the first hop that the target itself answered for; while the
target is silent the path is all hops.
-/

namespace PathMeter

/-- What is known about a run at one instant. -/
structure Snapshot where
  /-- The target as it was named. -/
  target : String
  /-- The address that is probed. -/
  destination : IPv4
  hops : List HopView
  /-- Completed cycles. -/
  cycles : Nat
  startedAt : Time.Timestamp
  /-- The time that the completed cycles took, pauses between them included. -/
  duration : Duration
  deriving DecidableEq

namespace Snapshot

/-- The hop at a position, counted from one. -/
def hop? (s : Snapshot) (position : Nat) : Option HopView :=
  if position = 0 then none else s.hops[position - 1]?

/-- The hops that have ever answered. -/
def active (s : Snapshot) : List HopView :=
  s.hops.filter HopView.isActive

/-- Hops up to and including the first one that answered from an address. -/
def pathTo (destination : IPv4) : List HopView → List HopView
  | [] => []
  | h :: hs => if h.address = some destination then [h] else h :: pathTo destination hs

/-- Hops up to and including the first one that the target answered for; all
hops while it has not answered. -/
def path (s : Snapshot) : List HopView :=
  pathTo s.destination s.hops

/-- The hops that a table shows: those on the path that were probed. -/
def rows (s : Snapshot) : List HopView :=
  s.path.filter fun h => h.sent ≠ 0

end Snapshot

end PathMeter
