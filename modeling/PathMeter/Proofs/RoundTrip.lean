import PathMeter.Engine.Rehearsal
import PathMeter.Proofs.Reports

/-!
# What a round trip measures

The round trip entered for a hop begins when the probe is sent and ends when
the reply is read.  It would measure the network if every reply were read on
arrival.  But nothing is read before the send pass is over, and a pass with
pauses takes its time: a reply that arrives meanwhile waits for its end, and
the wait is entered with the round trip.

So a round trip is what it should be just when the reply arrived after the
send pass (`round_trips_measured`).  With the usual thirty hops and the usual
pause of ten milliseconds, near hops answer long before that.
-/

namespace PathMeter.Engine

/-- Where time is taken at the later of two instants, it is right just when the
later one is the second. -/
private theorem max_sub_eq_iff {a b c : Nat} (h : c ≤ b) : max a b - c = b - c ↔ a ≤ b := by
  omega

/-- **What a round trip measures.**  In every history the sample of a hop is
made of the round trips of the datagrams accepted for it.  Each of these was
delivered, answers the one probe that its cycle sent to the hop, and has a
round trip up to its reading.  That is the time from the sending to the
arrival just when the arrival is not before the end of the send pass. -/
theorem round_trips_measured (e : Engine) (waiting : List Arrival) (asked : List String)
    (visits : List Visit) :
    (∀ n hop, (e.history waiting asked visits).ledger.hop? n = some hop →
      hop.samples = (e.history waiting asked visits).passes.flatMap fun r => r.roundTrips n) ∧
    ∀ r ∈ (e.history waiting asked visits).passes, ∀ read ∈ r.reads, ∀ reply d,
      read.verdict = .accepted reply d →
        Delivered waiting (e.history waiting asked visits) read ∧
        ∃ x ∈ r.sendings, x.outcome.isSent = true ∧ x.attempt.ttl = reply.id.hop.toNat ∧
          (∀ y ∈ r.sendings, y.attempt.ttl = x.attempt.ttl → y = x) ∧
          d = max (e.passEnd r) read.due - x.attempt.instant ∧
          (x.attempt.instant ≤ read.due →
            (d = read.due - x.attempt.instant ↔ e.passEnd r ≤ read.due)) := by
  have hs := history_reachable e waiting asked visits
  constructor
  · exact fun n hop hhop => hs.samples hhop
  · intro r hr read hread reply d hv
    have hr := List.mem_reverse.1 hr
    have htruth := hs.truthful r hr
    obtain ⟨x, hx, hsent, hhop, hd⟩ := htruth.roundTrip read hread reply d hv
    refine ⟨hs.delivered.2 r hr read hread, x, hx, hsent, hhop,
      fun y hy heq => htruth.inTurn.eq_of_ttl_eq hy hx heq, hd, ?_⟩
    intro hle
    rw [hd]
    exact max_sub_eq_iff hle

/-- A path of three hops, of which the second answers five milliseconds after
each probe, with the usual pause between probes. -/
def pacedTrial : Engine :=
  trial 3 (10 * Duration.millisecond) [.plain 2 (5 * Duration.millisecond) ⟨192, 168, 1, 1⟩]

/-- The reply arrives five milliseconds after its probe was sent, and its round
trip is entered as twenty. -/
theorem paced_round_trip_too_long :
    ∃ r ∈ (pacedTrial.history [] [] [⟨0, .never, 0⟩]).passes, ∃ read ∈ r.reads,
      ∃ x ∈ r.sendings, x.outcome.isSent = true ∧ x.attempt.ttl = 2 ∧
        x.attempt.instant ≤ read.due ∧
        read.due - x.attempt.instant = 5 * Duration.millisecond ∧
        read.roundTrip? 2 = some (20 * Duration.millisecond) := by
  decide +kernel

end PathMeter.Engine
