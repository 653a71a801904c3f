import PathMeter.Proofs.Attribution

/-!
# What the reports tell

The report of a cycle tells what happened in it.  Attempt number `i` was aimed
at position `i + 1`, `i` pauses after the start; a datagram was accepted just
when it was the first answer to a probe of this cycle; and the round trip that
was entered for it runs from the attempt to the instant of reading, which is
when the datagram was due, or the end of the send pass if that came later
(`Reachable.truthful`).

Nothing read was made up: every datagram in a report was supplied, by the
network in answer to an attempt or from the start (`Reachable.delivered`).
-/

namespace PathMeter.Engine

/-- The end of the send pass of a complete cycle, which is when the engine
begins to read. -/
def passEnd (e : Engine) (r : CycleReport) : Duration :=
  r.began + e.config.maxHops.toNat * e.config.sendDelay

/-- A report that tells what happened. -/
structure Truthful (e : Engine) (r : CycleReport) : Prop where
  /-- The positions have their turns from the start on. -/
  inTurn : InTurn e r.cycle r.began r.sendings
  /-- In a complete pass every position has its turn. -/
  isComplete_iff : r.isComplete = true ↔ r.sendings.length = e.config.maxHops.toNat
  /-- The first answer to each probe of this cycle that was sent is accepted,
  and nothing else is. -/
  accepted_iff : ∀ earlier read later, r.reads = earlier ++ read :: later →
    (read.verdict.isAccepted = true ↔ ∃ hop, AnswersSent e r.cycle r.sendings hop read.packet ∧
      ∀ read' ∈ earlier, ¬ AnswersSent e r.cycle r.sendings hop read'.packet)
  /-- The round trip runs from the attempt to the reading. -/
  roundTrip : ∀ read ∈ r.reads, ∀ reply d, read.verdict = .accepted reply d →
    ∃ x ∈ r.sendings, x.outcome.isSent = true ∧ x.attempt.ttl = reply.id.hop.toNat ∧
      d = max (e.passEnd r) read.due - x.attempt.instant

variable {e : Engine} {waiting : List Arrival} {asked : List String} {s : State}

theorem sendings_cycleReport (e : Engine) (stop : Stop) (s : State) :
    (e.cycleReport stop s).sendings = (e.passOf stop s).state.sendingsSince s := by
  unfold cycleReport
  split <;> rfl

theorem began_cycleReport (e : Engine) (stop : Stop) (s : State) :
    (e.cycleReport stop s).began = s.clock := by
  unfold cycleReport
  split <;> rfl

theorem reads_cycleReport {stop : Stop} (h : (e.passOf stop s).isComplete = true) :
    (e.cycleReport stop s).reads = (e.heardIn stop s).reads := by
  unfold cycleReport
  rw [if_pos h]
  rfl

theorem isComplete_of_mem_reads {stop : Stop} {read : Read}
    (hread : read ∈ (e.cycleReport stop s).reads) : (e.passOf stop s).isComplete = true := by
  unfold cycleReport at hread
  split at hread
  · assumption
  · simp [SendPass.report] at hread

/-- The report of a cycle from a sound state, with its queue in order, is
truthful. -/
theorem cycleReport_truthful (e : Engine) (stop : Stop) {s : State} (hq : InOrder s.queue) :
    Truthful e (e.cycleReport stop s) := by
  have hstory : Story e s.ledger.cycles e.hops s [] (e.passOf stop s)
      ((e.passOf stop s).state.sendingsSince s) := sendPass_story ..
  have hheard := heardIn_heard e stop s
  constructor
  case inTurn =>
    rw [sendings_cycleReport, cycle_cycleReport, began_cycleReport]
    exact hstory.inTurn
  case isComplete_iff =>
    rw [sendings_cycleReport, ← length_hops, ← hstory.isComplete]
    unfold cycleReport
    split <;> rfl
  case accepted_iff =>
    intro earlier read later hreads
    have hread : read ∈ (e.cycleReport stop s).reads := by
      rw [hreads]
      exact List.mem_append_right _ List.mem_cons_self
    have hcomplete := isComplete_of_mem_reads hread
    rw [reads_cycleReport hcomplete] at hreads
    rw [cycle_cycleReport, sendings_cycleReport]
    exact hstory.accepted_iff hheard hreads
  case roundTrip =>
    intro read hread reply d hv
    have hcomplete := isComplete_of_mem_reads hread
    rw [reads_cycleReport hcomplete] at hread
    obtain ⟨-, -, a, ha, hhop, rfl⟩ := hheard.of_accepted hread hv
    obtain ⟨x, hx, hsent, rfl⟩ := hstory.mem_awaited.1 ha
    have hpass : InOrder (e.passOf stop s).state.queue := sendPass_inOrder hq
    have hinstant : read.instant = max (e.passOf stop s).state.clock read.due :=
      receiveUntil_instant hpass read hread
    have hend : (e.passOf stop s).state.clock =
        s.clock + e.config.maxHops.toNat * e.config.sendDelay := by
      rw [hstory.clock, hstory.isComplete.1 hcomplete, length_hops]
    rw [sendings_cycleReport, passEnd, began_cycleReport, ← hend, ← hinstant]
    exact ⟨x, hx, hsent, hhop, rfl⟩

/-- **All reports on file are truthful.** -/
theorem Reachable.truthful (h : Reachable e waiting asked s) : ∀ r ∈ s.reports, Truthful e r :=
  h.forall_reports fun _ stop h _ => cycleReport_truthful e stop h.inOrder

/-- A delivery was supplied from the start, or it followed from an attempt. -/
def Supplied (waiting : List Arrival) (s : State) (a : Arrival) : Prop :=
  a ∈ waiting ∨ ∃ x ∈ s.attempts, a ∈ x.outcome.arrivals

theorem Supplied.mono {s s' : State} {a : Arrival} (h : Supplied waiting s a)
    (hgrow : ∀ x ∈ s.attempts, x ∈ s'.attempts) : Supplied waiting s' a :=
  h.imp_right fun ⟨x, hx, ha⟩ => ⟨x, hgrow x hx, ha⟩

/-- Attempts stay on record through a cycle. -/
theorem mem_attempts_cycle (e : Engine) (stop : Stop) {x : Sending} (hx : x ∈ s.attempts) :
    x ∈ (e.cycle stop s).state.attempts := by
  rw [cycle_attempts, passOf, (sendPass_story ..).attempts]
  exact List.mem_append_right _ hx

/-- What waits at the end of a send pass was supplied, if what waited at its
start was. -/
theorem sendPass_supplied {stop : Stop} {cycle : Nat} {hops : List Nat} {awaited : List Awaited}
    (hs : ∀ a ∈ s.queue, Supplied waiting s a) :
    ∀ a ∈ (e.sendPass stop cycle hops s awaited).state.queue,
      Supplied waiting (e.sendPass stop cycle hops s awaited).state a := by
  apply sendPass_preserves (P := fun s => ∀ a ∈ s.queue, Supplied waiting s a) _ _ hs
  · intro hop s hs a ha
    rcases mem_enqueueAll.1 ha with ha | ha
    · exact Or.inr ⟨_, List.mem_cons_self, ha⟩
    · exact (hs a ha).mono fun _ hx => List.mem_cons_of_mem _ hx
  · exact fun _ _ hs => hs

/-- A datagram in a report was supplied. -/
def Delivered (waiting : List Arrival) (s : State) (read : Read) : Prop :=
  ∃ a, Supplied waiting s a ∧ a.due = read.due ∧ a.packet? = some read.packet

private theorem delivered_cycle {stop : Stop}
    (hqueue : ∀ a ∈ s.queue, Supplied waiting s a)
    (hreads : ∀ r ∈ s.reports, ∀ read ∈ r.reads, Delivered waiting s read) :
    (∀ a ∈ (e.cycle stop s).state.queue, Supplied waiting (e.cycle stop s).state a) ∧
      ∀ r ∈ (e.cycle stop s).state.reports, ∀ read ∈ r.reads,
        Delivered waiting (e.cycle stop s).state read := by
  -- nothing is attempted after the send pass, so its record is that of the cycle
  have hpass : ∀ a ∈ (e.passOf stop s).state.queue,
      Supplied waiting (e.cycle stop s).state a := fun a ha =>
    (sendPass_supplied hqueue a ha).mono fun _ hx => cycle_attempts e stop s ▸ hx
  constructor
  · exact fun a ha => hpass a (mem_queue_of_cycle ha)
  · intro r hr read hread
    rw [cycle_reports] at hr
    rcases List.mem_cons.1 hr with rfl | hr
    · obtain ⟨a, ha, hdue, hpacket⟩ := exists_arrival_of_mem_report hread
      exact ⟨a, hpass a ha, hdue, hpacket⟩
    · obtain ⟨a, ha, hdue, hpacket⟩ := hreads r hr read hread
      exact ⟨a, ha.mono fun _ hx => mem_attempts_cycle e stop hx, hdue, hpacket⟩

/-- **Nothing read was made up.** -/
theorem Reachable.delivered (h : Reachable e waiting asked s) :
    (∀ a ∈ s.queue, Supplied waiting s a) ∧
      ∀ r ∈ s.reports, ∀ read ∈ r.reads, Delivered waiting s read := by
  induction h with
  | start =>
      refine ⟨fun a ha => Or.inl ?_, by simp [Engine.start]⟩
      exact (mem_enqueueAll.1 ha).resolve_right List.not_mem_nil
  | wait _ _ ih => exact ih
  | markStart _ ih => exact markStart_cases (fun _ => ih) fun _ => ih
  | complete _ _ _ _ _ ih | cut _ _ _ _ ih => exact delivered_cycle ih.1 ih.2

end PathMeter.Engine
