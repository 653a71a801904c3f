import PathMeter.Proofs.Attribution
import PathMeter.Proofs.Timeline

/-!
# What the counters keep to

A reader may look at the results at any instant, also in the middle of a send
pass.  Sends and replies are counted as they happen and losses once a cycle,
so the three agree only up to the one probe of the cycle in progress.  This
file says what a reader can rely on all the same, at every moment of every
history: the hops are there, numbered from one; replies and losses never pass
the sends, and fall short of them by one at most, and by nothing between two
cycles; and nothing that was counted is ever taken back.
-/

namespace PathMeter.Engine

variable {e : Engine} {waiting : List Arrival} {asked : List String}

/-- What a reader can rely on at a moment. -/
structure Reliable (e : Engine) (waiting : List Arrival) (asked : List String)
    (m : Moment) : Prop where
  /-- Every position has its hop, in order. -/
  numbered : m.ledger.hops.map (·.number) = List.range' 1 e.config.maxHops.toNat
  /-- The counters of a hop agree with its round trips and with each other. -/
  counted : ∀ h ∈ m.ledger.hops, h.samples.length = h.received ∧
    (h.address.isSome = true ↔ 0 < h.received) ∧
    h.received + h.lost ≤ h.sent ∧ h.sent ≤ h.received + h.lost + 1
  /-- The moment is between two cycles or during one. -/
  placed : Between e waiting asked m ∨ ∃ s, During e waiting asked s m
  /-- Between two cycles every probe is either answered or lost. -/
  balanced : Between e waiting asked m → ∀ h ∈ m.ledger.hops, h.sent = h.received + h.lost

theorem Between.upToDate {m : Moment} (h : Between e waiting asked m) : m.ledger.UpToDate := by
  obtain ⟨s, hs, rfl⟩ := h
  exact hs.upToDate

/-- The hops keep their numbers from cycle to cycle and within each. -/
theorem numbered_of_placed {m : Moment}
    (h : Between e waiting asked m ∨ ∃ s, During e waiting asked s m) :
    m.ledger.hops.map (·.number) = List.range' 1 e.config.maxHops.toNat := by
  rcases h with ⟨s, hs, rfl⟩ | ⟨s, hs, stop, -, hm⟩
  · exact hs.sound.numbered
  · rcases end_or_underway hm with rfl | hunderway
    · exact (cycle_sound hs.sound).numbered
    · have hstages := hunderway.2.hops
      exact (hstages.numbers_eq fun _ _ hstage => hstage.number_eq).trans hs.sound.numbered

theorem Reachable.reliable {s : State} (h : Reachable e waiting asked s) :
    ∀ m ∈ s.timeline, Reliable e waiting asked m := by
  intro m hm
  have hplaced := h.moments m hm
  have hcoherent : ∀ g ∈ m.ledger.hops, g.Coherent := by
    rcases hplaced with hbetween | ⟨s', hduring⟩
    · exact fun g hg => (hbetween.upToDate g hg).toCoherent
    · exact hduring.coherent
  constructor
  case numbered => exact numbered_of_placed hplaced
  case counted =>
    intro g hg
    have hc := hcoherent g hg
    exact ⟨hc.length_samples, hc.address_iff, hc.lost_le, hc.sent_le⟩
  case placed => exact hplaced
  case balanced => exact fun hbetween g hg => (hbetween.upToDate g hg).sent_eq

theorem Reliable.sound {m : Moment} (h : Reliable e waiting asked m) :
    m.ledger.Sound e.config.maxHops.toNat := by
  refine ⟨h.numbered, fun g hg => ?_⟩
  obtain ⟨-, -, hlost, hsent⟩ := h.counted g hg
  omega

/-- **What the counters keep to.**  At every moment of every history the
counters can be relied on, the ledger in force is that of the last moment, and
from any moment to any later one cycles, time, sends, replies and losses do not
decrease and no address is forgotten. -/
theorem counters_reliable (e : Engine) (waiting : List Arrival) (asked : List String)
    (visits : List Visit) :
    let s := e.history waiting asked visits
    (∀ m ∈ s.timeline, Reliable e waiting asked m) ∧
      s.timeline.head?.map (·.ledger) = some s.ledger ∧
      s.timeline.Pairwise fun later earlier =>
        earlier.instant ≤ later.instant ∧ earlier.ledger.Grows later.ledger := by
  intro s
  have hs : Reachable e waiting asked s := history_reachable e waiting asked visits
  exact ⟨hs.reliable, hs.ascending.last, hs.ascending.pairwise⟩

/-- Two runs of the trial whose first hop answers every probe twice, a second
apart. -/
def echoingTwice : List Visit :=
  [⟨0, .never, 0⟩, ⟨Duration.second, .never, 0⟩]

/-- In the middle of its second send pass the first hop has one probe more than
replies and losses, the second has none, and both can be relied on. -/
theorem reliable_within_second_pass :
    ∃ m ∈ (echoingTrial.history [] [] echoingTwice).timeline,
      (m.ledger.hops.map fun h => (h.sent, h.received, h.lost)) = [(2, 1, 0), (1, 1, 0)] ∧
        Reliable echoingTrial [] [] m := by
  refine ⟨(echoingTrial.history [] [] echoingTwice).timeline.get ⟨5, by decide +kernel⟩,
    List.get_mem _ _, by decide +kernel, ?_⟩
  exact (counters_reliable echoingTrial [] [] echoingTwice).1 _ (List.get_mem _ _)

end PathMeter.Engine
