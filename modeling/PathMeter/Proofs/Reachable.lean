import PathMeter.Engine.History
import PathMeter.Proofs.Cycle

/-!
# Reachable states

Between cycles an engine is in a state that has come about from a fresh one by
resting, marking the start, and cycles that were completed or cut short.
`Reachable` gathers these states, with any stop signal and any earlier mark in
each cycle, so that every state of every history is among them
(`history_reachable`).

What each of the five steps keeps holds in every reachable state.  The ledger
is sound, the queue is in the order of reading, the cycles are numbered by the
completed ones before them, and the sample of a hop is what the reports say.
-/

namespace PathMeter.Engine

/-- The states between cycles of an engine that started with some deliveries
waiting and some questions asked. -/
inductive Reachable (e : Engine) (waiting : List Arrival) (asked : List String) :
    State → Prop where
  | start : Reachable e waiting asked (e.start waiting asked)
  | wait {s : State} (d : Duration) (h : Reachable e waiting asked s) :
      Reachable e waiting asked (s.wait d)
  | markStart {s : State} (h : Reachable e waiting asked s) :
      Reachable e waiting asked (e.markStart s)
  | complete {s : State} (stop : Stop) (mark : Duration) (h : Reachable e waiting asked s)
      (hstop : stop.raised s = false) (hcomplete : (e.cycle stop s).isComplete = true) :
      Reachable e waiting asked ((e.cycle stop s).state.record
        ((e.cycle stop s).state.ledger.completeCycle ((e.cycle stop s).state.clock - mark)))
  | cut {s : State} (stop : Stop) (h : Reachable e waiting asked s)
      (hstop : stop.raised s = false) (hcut : (e.cycle stop s).isComplete = false) :
      Reachable e waiting asked (e.cycle stop s).state

variable {e : Engine} {waiting : List Arrival} {asked : List String} {s : State}

theorem waitUntil_eq_wait (s : State) (t : Duration) : s.waitUntil t = s.wait (t - s.clock) := by
  have hmax : max s.clock t = s.clock + (t - s.clock) := by
    rw [Nat.max_comm, ← Nat.sub_add_eq_max, Nat.add_comm]
  rw [State.waitUntil, State.wait, hmax]

/-- A pause between cycles is a rest. -/
theorem Reachable.pause (h : Reachable e waiting asked s) (stop : Stop) :
    Reachable e waiting asked (e.pause stop s).1 := by
  unfold Engine.pause
  split
  · exact h
  · split
    · split
      · rw [waitUntil_eq_wait]
        exact h.wait _
      · exact h.wait _
    · exact h.wait _

/-- Turn after turn, a run stays among the reachable states. -/
theorem Reachable.cycles {σ : Type} (h : Reachable e waiting asked s) (stop : Stop)
    (onCycle : σ → Snapshot → σ) (turns : Nat) (mark : Duration) (completed : Nat) (seen : σ) :
    Reachable e waiting asked (e.cycles stop onCycle turns mark completed s seen).state := by
  induction turns generalizing mark completed s seen with
  | zero => exact h
  | succ turns ih =>
      unfold Engine.cycles
      split
      · exact h
      · next hgo =>
        have hstop : stop.raised s = false := by
          cases hraised : stop.raised s with
          | true => simp [hraised] at hgo
          | false => rfl
        dsimp only
        split
        · next hcomplete =>
          have hnext := h.complete stop mark hstop hcomplete
          split
          · exact hnext
          · split
            · exact hnext.pause stop
            · exact ih (hnext.pause stop) ..
        · next hcut => exact h.cut stop hstop (Bool.eq_false_iff.2 hcut)

/-- **Runs stay among the reachable states.** -/
theorem Reachable.run {σ : Type} (h : Reachable e waiting asked s) (stop : Stop) (patience : Nat)
    (onCycle : σ → Snapshot → σ) (seen : σ) :
    Reachable e waiting asked (e.run stop patience onCycle s seen).state :=
  h.markStart.cycles ..

theorem Reachable.visit (h : Reachable e waiting asked s) (v : Visit) :
    Reachable e waiting asked (e.visit s v) :=
  (h.wait v.rest).run ..

/-- **Every history ends in a reachable state.** -/
theorem history_reachable (e : Engine) (waiting : List Arrival) (asked : List String)
    (visits : List Visit) : Reachable e waiting asked (e.history waiting asked visits) := by
  unfold history
  generalize hstart : e.start waiting asked = s
  have hs : Reachable e waiting asked s := hstart ▸ Reachable.start
  clear hstart
  induction visits generalizing s with
  | nil => exact hs
  | cons v rest ih => exact ih _ (hs.visit v)

/-- The hops of a reachable state are numbered without gaps, and none has more
replies than sends. -/
theorem Reachable.sound (h : Reachable e waiting asked s) :
    s.ledger.Sound e.config.maxHops.toNat := by
  induction h with
  | start => exact Ledger.sound_new ..
  | wait _ _ ih => exact ih
  | markStart _ ih =>
      exact markStart_cases (fun _ => ⟨ih.numbered, ih.bounded⟩) fun _ => ih
  | complete _ _ _ _ _ ih => exact ⟨(cycle_sound ih).numbered, (cycle_sound ih).bounded⟩
  | cut _ _ _ _ ih => exact cycle_sound ih

/-- The address that the ledger shows is the one that is probed. -/
theorem Reachable.destination (h : Reachable e waiting asked s) :
    s.ledger.destination = e.destination := by
  induction h with
  | start => rfl
  | wait _ _ ih => exact ih
  | markStart _ ih => exact markStart_cases (fun _ => ih) fun _ => ih
  | complete _ _ _ _ _ ih | cut _ _ _ _ ih => exact (cycle_destination ..).trans ih

/-- The queue of a reachable state is in the order of reading. -/
theorem Reachable.inOrder (h : Reachable e waiting asked s) : InOrder s.queue := by
  induction h with
  | start => exact InOrder.enqueueAll List.Pairwise.nil waiting
  | wait _ _ ih => exact ih
  | markStart _ ih => exact markStart_cases (fun _ => ih) fun _ => ih
  | complete _ _ _ _ _ ih | cut _ _ _ _ ih => exact cycle_inOrder ih

/-- What holds of the report of every cycle that a reachable state begins holds
of every report on file. -/
theorem Reachable.forall_reports (h : Reachable e waiting asked s) {P : CycleReport → Prop}
    (hcycle : ∀ s stop, Reachable e waiting asked s → stop.raised s = false →
      P (e.cycleReport stop s)) :
    ∀ r ∈ s.reports, P r := by
  induction h with
  | start => simp [Engine.start]
  | wait _ _ ih => exact ih
  | markStart _ ih => exact markStart_cases (fun _ => ih) fun _ => ih
  | complete stop _ h hstop _ ih | cut stop h hstop _ ih =>
      intro r hr
      rcases List.mem_cons.1 (cycle_reports e stop _ ▸ hr) with rfl | hr
      · exact hcycle _ stop h hstop
      · exact ih r hr

/-- Reports, oldest first, whose cycles are numbered by the completed ones
before them. -/
def Numbered (passes : List CycleReport) : Prop :=
  ∀ i r, passes[i]? = some r → r.cycle = (passes.take i).countP (·.isComplete)

theorem Numbered.append {passes : List CycleReport} {r : CycleReport} (h : Numbered passes)
    (hr : r.cycle = passes.countP (·.isComplete)) : Numbered (passes ++ [r]) := by
  intro i r' hi
  rcases Nat.lt_or_ge i passes.length with hlt | hge
  · rw [List.getElem?_append_left hlt] at hi
    rw [List.take_append_of_le_length (Nat.le_of_lt hlt)]
    exact h i r' hi
  · have hlen : i < (passes ++ [r]).length := (List.getElem?_eq_some_iff.1 hi).1
    obtain rfl : i = passes.length := by
      rw [List.length_append, List.length_singleton] at hlen
      omega
    obtain rfl : r = r' := by simpa using hi
    rwa [List.take_left]

theorem cycle_cycleReport (e : Engine) (stop : Stop) (s : State) :
    (e.cycleReport stop s).cycle = s.ledger.cycles := by
  unfold cycleReport
  split <;> rfl

theorem cycle_passes (e : Engine) (stop : Stop) (s : State) :
    (e.cycle stop s).state.passes = s.passes ++ [e.cycleReport stop s] := by
  rw [State.passes, cycle_reports, List.reverse_cons, State.passes]

/-- **Cycles are numbered by the completed ones.**  A pass that was cut short
leaves its number to the next one. -/
theorem Reachable.numbered (h : Reachable e waiting asked s) :
    s.ledger.cycles = s.passes.countP (·.isComplete) ∧ Numbered s.passes := by
  induction h with
  | start => exact ⟨rfl, by simp [Numbered, State.passes, Engine.start]⟩
  | wait _ _ ih => exact ih
  | markStart _ ih => exact markStart_cases (fun _ => ih) fun _ => ih
  | @complete s stop mark _ _ hcomplete ih =>
      show (e.cycle stop s).state.ledger.cycles + 1 =
        (e.cycle stop s).state.passes.countP _ ∧ Numbered (e.cycle stop s).state.passes
      rw [cycle_passes, cycle_cycles, List.countP_append, ih.1, List.countP_singleton,
        if_pos ((isComplete_cycleReport e stop s).trans hcomplete)]
      exact ⟨rfl, ih.2.append ((cycle_cycleReport e stop s).trans ih.1)⟩
  | @cut s stop _ _ hcut ih =>
      have hnot : ¬ (e.cycleReport stop s).isComplete = true := by
        rw [isComplete_cycleReport, hcut]
        exact Bool.false_ne_true
      rw [cycle_passes, cycle_cycles, List.countP_append, List.countP_singleton, if_neg hnot]
      exact ⟨ih.1, ih.2.append ((cycle_cycleReport e stop s).trans ih.1)⟩

/-- The samples after a cycle, where those before it are what the reports say. -/
private theorem samples_cycle {stop : Stop} {n : Nat} {hop : Hop}
    (hs : s.ledger.Sound e.config.maxHops.toNat)
    (ih : ∀ hop, s.ledger.hop? n = some hop →
      hop.samples = s.passes.flatMap fun r => r.roundTrips n)
    (hhop : (e.cycle stop s).state.ledger.hop? n = some hop) :
    hop.samples = (e.cycle stop s).state.passes.flatMap fun r => r.roundTrips n := by
  have hgrow := cycle_samples e stop hs n
  rw [hhop] at hgrow
  obtain ⟨g, hg, hsamples⟩ := Option.map_eq_some_iff.1 hgrow.symm
  refine hsamples.symm.trans ?_
  rw [ih g hg, cycle_passes]
  simp

/-- **The sample of a hop is what the reports say**: the round trips entered for
it, cycle after cycle, in the order of reading. -/
theorem Reachable.samples (h : Reachable e waiting asked s) {n : Nat} {hop : Hop}
    (hhop : s.ledger.hop? n = some hop) :
    hop.samples = s.passes.flatMap fun r => r.roundTrips n := by
  induction h generalizing hop with
  | start =>
      obtain ⟨m, -, rfl⟩ := List.mem_map.1 (Ledger.mem_of_hop? hhop)
      rfl
  | wait _ _ ih => exact ih hhop
  | @markStart s _ ih =>
      revert hhop
      exact markStart_cases (fun _ => ih) fun _ => ih
  | complete _ _ h _ _ ih | cut _ h _ _ ih => exact samples_cycle h.sound (fun _ hg => ih hg) hhop

end PathMeter.Engine
