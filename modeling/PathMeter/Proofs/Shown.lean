import PathMeter.Proofs.Reports
import PathMeter.Proofs.Turns

/-!
# What a run shows

A run shows a snapshot for each cycle that it completes, and returns one more
at its end.  All of them are final: losses and figures are those of every pass
made so far, whether the run ends with its count, while sending, while pausing
or before it began.

The snapshot returned is the last one shown.  Only when the last pass was cut
short does it say more: the probes of that pass are counted, and count as
lost.
-/

namespace PathMeter

/-- The hop with one more probe, which was lost. -/
def HopView.withLoss (h : HopView) : HopView :=
  { h with
    sent := h.sent + 1
    lost := h.lost + 1
    loss := Hop.lossOf (h.sent + 1) (h.lost + 1) }

/-- The snapshot with one more probe lost at each of some positions. -/
def Snapshot.withLosses (positions : List Nat) (s : Snapshot) : Snapshot :=
  { s with hops := s.hops.map fun h => if h.number ∈ positions then h.withLoss else h }

theorem Snapshot.withLosses_nil (s : Snapshot) : s.withLosses [] = s := by
  simp [withLosses]

/-- A probe that is never answered becomes a loss. -/
theorem Hop.UpToDate.view_finalize_recordSent {h : Hop} (hh : h.UpToDate) :
    h.recordSent.finalize.view = h.view.withLoss := by
  have hsent := hh.sent_eq
  have hlost : h.sent + 1 - h.received = h.lost + 1 := by omega
  have hfigures := hh.figures_eq
  have hshortest : (Sample.of h.samples).shortest = h.shortest :=
    congrArg Sample.shortest hfigures.symm
  have hlongest : (Sample.of h.samples).longest = h.longest :=
    congrArg Sample.longest hfigures.symm
  have hmean : (Sample.of h.samples).mean = h.mean := congrArg Sample.mean hfigures.symm
  have hspread : (Sample.of h.samples).spread = h.spread := congrArg Sample.spread hfigures.symm
  simp only [Hop.finalize, Hop.recordSent, Hop.view, HopView.withLoss, hlost, hshortest, hlongest,
    hmean, hspread]

namespace Engine

/-- Losses and figures of a snapshot are those of some passes. -/
def FinalAfter (passes : List CycleReport) (snapshot : Snapshot) : Prop :=
  ∀ h ∈ snapshot.hops, h.received ≤ h.sent ∧ h.lost = h.sent - h.received ∧
    h.figures = Sample.of (passes.flatMap fun r => r.roundTrips h.number)

variable {e : Engine} {stop : Stop} {waiting : List Arrival} {asked : List String} {s : State}

/-- **Between cycles every snapshot is final.** -/
theorem Reachable.finalAfter (h : Reachable e waiting asked s) :
    FinalAfter s.passes s.snapshot := by
  intro v hv
  obtain ⟨g, hg, rfl⟩ := List.mem_map.1 hv
  obtain ⟨n, hn⟩ := Ledger.exists_hop?_of_mem hg
  have hdate := h.upToDate g hg
  have hsent := hdate.sent_eq
  refine ⟨?_, hdate.lost_eq, ?_⟩
  · show g.received ≤ g.sent
    omega
  · show g.figures = Sample.of (s.passes.flatMap fun r => r.roundTrips g.number)
    rw [h.sound.number_eq hn, ← h.samples hn]
    exact hdate.figures_eq

/-- **A pass that was cut short** leaves a loss for every probe made in it, and
nothing else. -/
theorem Reachable.snapshot_cut (h : Reachable e waiting asked s)
    (hcut : (e.cycle stop s).isComplete = false) :
    (e.cycle stop s).state.snapshot =
      s.snapshot.withLosses ((e.cycleReport stop s).sendings.map (·.attempt.ttl)) := by
  have hpass := not_complete_passOf hcut
  have hgathered : (e.gathered stop s).ledger = (e.passOf stop s).state.ledger := by
    unfold gathered
    rw [if_neg hpass]
    rfl
  have hhops : (e.cycle stop s).state.ledger.hops.map Hop.view =
      (s.snapshot.withLosses ((e.cycleReport stop s).sendings.map (·.attempt.ttl))).hops := by
    rw [cycle_state]
    apply List.ext_getElem?
    intro i
    have hi : ∀ l : Ledger, l.hops[i]? = l.hop? (i + 1) := fun _ => rfl
    show ((e.gathered stop s).ledger.finalize.hops.map Hop.view)[i]? =
      ((s.ledger.hops.map Hop.view).map _)[i]?
    rw [List.getElem?_map, List.getElem?_map, List.getElem?_map, hi, hi, Ledger.finalize,
      Ledger.hop?_updateAll, hgathered, passOf_hop?, sendings_cycleReport]
    cases hg : s.ledger.hop? (i + 1) with
    | none => simp
    | some g =>
        have hdate := h.upToDate g (Ledger.mem_of_hop? hg)
        have hnumber : g.view.number = i + 1 := h.sound.number_eq hg
        simp only [Option.map_some, hnumber]
        split
        · exact congrArg some hdate.view_finalize_recordSent
        · exact congrArg (some ∘ Hop.view) hdate.finalize_eq
  rw [State.snapshot, Ledger.snapshot, hhops, cycle_frame]
  rfl

/-- What a run shows and returns: it makes some passes to the end, `done`, and
may be cut short in one more, `cut`. -/
structure Shown (e : Engine) (stop : Stop) (s : State) (run : RunEnd (List Snapshot))
    (done cut : List CycleReport) : Prop where
  passes : run.state.passes = s.passes ++ done ++ cut
  isComplete : ∀ r ∈ done, r.isComplete = true
  isCut : cut.length ≤ 1 ∧ ∀ r ∈ cut, r.isComplete = false
  /-- Every completed cycle is shown once. -/
  once : run.seen.length = done.length
  cycles : ∀ i snapshot, run.seen[i]? = some snapshot →
    snapshot.cycles = s.ledger.cycles + (i + 1)
  /-- A run that was asked for a number of cycles completes no more. -/
  count : 0 < e.config.count → run.ending = .finished ∧ run.seen.length ≤ e.config.count
  /-- A run that ends without being told to has completed all that it was asked
  for. -/
  countEq : run.ending = .finished → stop.raised run.state = false →
    run.seen.length = e.config.count
  final : ∀ i snapshot, run.seen[i]? = some snapshot →
    FinalAfter (s.passes ++ done.take (i + 1)) snapshot
  finalReturned : FinalAfter run.state.passes run.state.snapshot
  /-- The snapshot returned is the last one shown, or that of the start, with a
  loss for every probe of the pass that was cut short. -/
  returned : run.state.snapshot =
    (run.seen.getLastD
      { s.snapshot with startedAt := (e.markStart s).snapshot.startedAt }).withLosses
        (cut.flatMap fun r => r.sendings.map (·.attempt.ttl))

/-- Marking the start changes nothing that is shown but the start. -/
theorem Reachable.snapshot_markStart (h : Reachable e waiting asked s) :
    (e.markStart s).snapshot =
      { s.snapshot with startedAt := (e.markStart s).snapshot.startedAt } := by
  refine markStart_cases (fun hcycles => ?_) fun _ => rfl
  simp only [State.snapshot, State.record, Ledger.snapshot, Ledger.markStarted,
    h.duration_eq_zero hcycles]

theorem run_counted (e : Engine) (stop : Stop) (patience : Nat) (s : State) :
    let run := e.runCollecting stop patience s
    (0 < e.config.count → run.ending = .finished ∧ run.seen.length ≤ e.config.count) ∧
      (run.ending = .finished → stop.raised run.state = false →
        run.seen.length = e.config.count) := by
  intro run
  obtain ⟨known, hturns, hseen, -⟩ := run_turns e stop patience s
  have hlength : run.seen.length = known.length := by
    rw [hseen, List.length_map]
  rw [hlength]
  rcases Nat.eq_zero_or_pos e.config.count with hzero | hpos
  · refine ⟨fun hpos => by omega, fun hending hraised => ?_⟩
    have hunbounded : e.config.isUnbounded = true := decide_eq_true hzero
    have htold := hturns.raised_of_unbounded hunbounded hending
    exact absurd (hraised.symm.trans htold) Bool.false_ne_true
  · have hbounded : e.config.isUnbounded = false := decide_eq_false (by omega)
    have hcount : e.turns patience = e.config.count := by
      rw [turns, hbounded]
      rfl
    obtain ⟨hending, hle, hall⟩ := hturns.counted hbounded hcount (hcount ▸ hpos)
    rw [Nat.zero_add] at hle hall
    exact ⟨fun _ => ⟨hending, hle⟩, fun _ => hall⟩

/-- A run that was cut short returns what it showed last with the losses of the
last pass. -/
theorem Closing.snapshot_eq {last f : State} {cut : List CycleReport}
    (h : Closing e stop last cut f) (hlast : Reachable e waiting asked last) :
    f.snapshot =
      last.snapshot.withLosses (cut.flatMap fun r => r.sendings.map (·.attempt.ttl)) := by
  cases h with
  | paused d =>
      rw [List.flatMap_nil, Snapshot.withLosses_nil]
      rfl
  | cut d _ hcut =>
      rw [(hlast.wait d).snapshot_cut hcut, List.flatMap_singleton]
      rfl

theorem Closing.isCut {last f : State} {cut : List CycleReport} (h : Closing e stop last cut f) :
    cut.length ≤ 1 ∧ ∀ r ∈ cut, r.isComplete = false := by
  cases h with
  | paused => exact ⟨Nat.zero_le 1, by simp⟩
  | cut d _ hcut =>
      refine ⟨Nat.le_refl 1, fun r hr => ?_⟩
      rw [List.mem_singleton.1 hr, isComplete_cycleReport]
      exact hcut

/-- **What a run shows and returns**, from any state that a history can lead to
and whenever it is told to stop. -/
theorem Reachable.shown (h : Reachable e waiting asked s) (stop : Stop) (patience : Nat) :
    ∃ done cut, Shown e stop s (e.runCollecting stop patience s) done cut := by
  obtain ⟨known, done, cut, hrun⟩ := h.retold stop patience
  obtain ⟨hcount, hcountEq⟩ := run_counted e stop patience s
  refine ⟨done, cut, ?_⟩
  constructor
  case passes => exact hrun.passes
  case isComplete => exact hrun.isComplete
  case isCut => exact hrun.closing.isCut
  case once => exact hrun.length_seen
  case cycles =>
    intro i snapshot hi
    obtain ⟨c, -, rfl, hknown, -⟩ := hrun.known_spec h hi
    rw [← cycles_markStart e s]
    exact hknown.cycles
  case count => exact hcount
  case countEq => exact hcountEq
  case final =>
    intro i snapshot hi
    obtain ⟨c, -, rfl, hknown, hpasses⟩ := hrun.known_spec h hi
    rw [← hpasses]
    exact hknown.reachable.finalAfter
  case finalReturned => exact hrun.reachable.finalAfter
  case returned =>
    rw [← h.snapshot_markStart, hrun.seen, getLastD_snapshot]
    exact hrun.closing.snapshot_eq hrun.reachableLast

/-- **Snapshots are complete and final.**  In every history, a run shows one
snapshot for each cycle that it completes, with all figures brought up to date,
and returns the last of them, with the losses of a pass that was cut short.  An
onlooker of any kind is shown the same snapshots, in this order and each
once. -/
theorem snapshots_final (e : Engine) (waiting : List Arrival) (asked : List String)
    (visits : List Visit) (rest : Duration) (stop : Stop) (patience : Nat) :
    let s := (e.history waiting asked visits).wait rest
    let run := e.runCollecting stop patience s
    (∃ done cut, Shown e stop s run done cut) ∧
      ∀ {σ : Type} (onCycle : σ → Snapshot → σ) (seen : σ),
        e.run stop patience onCycle s seen =
          ⟨run.state, run.seen.foldl onCycle seen, run.ending⟩ := by
  intro s run
  have hs : Reachable e waiting asked s := (history_reachable e waiting asked visits).wait rest
  obtain ⟨-, -, -, hrun⟩ := run_turns e stop patience s
  exact ⟨hs.shown stop patience, hrun⟩

/-- The path whose first hop answers every probe twice, measured without end. -/
def echoingForEver : Engine :=
  { echoingTrial with config := { echoingTrial.config with count := 0 } }

/-- A run that is told to stop while it makes its third attempt shows its first
cycle and returns one loss more, for the probe of that attempt. -/
theorem final_after_third_attempt :
    let s := (echoingForEver.history [] [] []).wait 0
    let run := echoingForEver.runCollecting { attempt := some 3 } 5 s
    (∃ done cut, Shown echoingForEver { attempt := some 3 } s run done cut) ∧
      run.seen.map (fun v => v.hops.map fun h => (h.sent, h.received, h.lost)) =
        [[(1, 1, 0), (1, 1, 0)]] ∧
      run.state.snapshot.hops.map (fun h => (h.sent, h.received, h.lost)) =
        [(2, 1, 1), (1, 1, 0)] ∧
      run.ending = .finished :=
  ⟨(snapshots_final echoingForEver [] [] [] 0 { attempt := some 3 } 5).1, by decide +kernel⟩

end Engine

end PathMeter
