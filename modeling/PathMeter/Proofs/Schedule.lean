import PathMeter.Proofs.Stopping

/-!
# The schedule of a run

What a run sends is fixed before it begins: pass after pass the positions have
their turns in order, one every `sendDelay`, each with the request that its
hop and its cycle call for (`scheduled`).  Nothing that the network or the
name service does changes an attempt.  The signal can only end the sequence
early, within the last pass, and then the run is over and that pass is not
counted (`run_on_schedule`).

What becomes of an attempt matters in one place: a probe that was not sent is
not awaited.  It is counted like any other, so that the sends of a hop are its
attempts, in every state between cycles (`Reachable.countsSends`).
-/

namespace PathMeter.Engine

/-- The first attempts of a pass that begins at an instant, one for each position
up to the last. -/
def scheduled (e : Engine) (cycle : Nat) (began : Duration) (last : Nat) : List Attempt :=
  (List.range' 1 last).map fun hop =>
    { instant := began + (hop - 1) * e.config.sendDelay
      ttl := hop
      packet := Wire.echoRequest e.identifier ⟨UInt8.ofNat (cycle % 256), UInt8.ofNat hop⟩
        e.config.payloadSize
      destination := e.destination }

/-- A pass on schedule: which attempts it makes from a state on, and what is made
of them. -/
structure OnSchedule (e : Engine) (stop : Stop) (b : State) (cycle : Nat) (r : CycleReport) :
    Prop where
  began : r.began = b.clock
  attempts : r.sendings.map (·.attempt) = e.scheduled cycle r.began r.sendings.length
  length_le : r.sendings.length ≤ e.config.maxHops.toNat
  isComplete_iff : r.isComplete = true ↔ r.sendings.length = e.config.maxHops.toNat
  /-- What was sent is awaited, and nothing else is. -/
  awaited : (e.passOf stop b).awaited =
    (r.sendings.filter (·.outcome.isSent)).map Awaited.ofSending
  /-- Every attempt is one send more for its hop, whatever becomes of it. -/
  counted : ∀ n, (e.passOf stop b).state.ledger.hop? n =
    if n ∈ r.sendings.map (·.attempt.ttl) then (b.ledger.hop? n).map Hop.recordSent
    else b.ledger.hop? n

/-- A state whose ledger counts the attempts made at each hop as its sends. -/
def CountsSends (s : State) : Prop :=
  ∀ n h, s.ledger.hop? n = some h → h.sent = s.attempts.countP (·.attempt.ttl = n)

/-- A run on schedule: `done` are the passes that it makes to the end, and `cut` is
the one that is cut short, if any. -/
structure RunOnSchedule (e : Engine) (waiting : List Arrival) (asked : List String) (stop : Stop)
    (s : State) (run : RunEnd (List Snapshot)) (done cut : List CycleReport) : Prop where
  /-- The attempts of the run are those of its passes, one pass after the other. -/
  attempts : run.state.attempts.reverse =
    s.attempts.reverse ++ (done ++ cut).flatMap (·.sendings)
  /-- Pass number `k` belongs to cycle number `k` from here. -/
  pass : ∀ k r, (done ++ cut)[k]? = some r →
    ∃ b, Begins e waiting asked stop b (s.passes ++ (done ++ cut).take k) r ∧
      OnSchedule e stop b (s.ledger.cycles + k) r
  isComplete : ∀ r ∈ done, r.isComplete = true
  length_cut : cut.length ≤ 1
  /-- A pass is cut short only by the signal, and the run ends there. -/
  cut : ∀ r ∈ cut, r.isComplete = false ∧ stop.raised run.state = true ∧ run.ending = .finished
  /-- Only passes made to the end are counted. -/
  cycles : run.state.ledger.cycles = s.ledger.cycles + done.length
  length_seen : run.seen.length = done.length
  countsSends : CountsSends run.state

variable {e : Engine} {stop : Stop} {waiting : List Arrival} {asked : List String} {s f : State}

/-! ### One pass -/

section InTurn

variable {cycle : Nat} {began : Duration} {sendings : List Sending}

theorem InTurn.length_le (h : InTurn e cycle began sendings) :
    sendings.length ≤ e.config.maxHops.toNat := by
  rcases Nat.eq_zero_or_pos sendings.length with hzero | hpos
  · omega
  · have hlast : sendings.length - 1 < e.config.maxHops.toNat :=
      (h _ sendings[sendings.length - 1] (List.getElem?_eq_getElem _)).1
    omega

/-- Attempts that give the positions their turns are those of the schedule. -/
theorem InTurn.attempts_eq (h : InTurn e cycle began sendings) :
    sendings.map (·.attempt) = e.scheduled cycle began sendings.length := by
  apply List.ext_getElem
  · simp [scheduled]
  · intro i hi hi'
    have hlt : i < sendings.length := by simpa using hi
    have hturn := (h i sendings[i] (List.getElem?_eq_getElem hlt)).2
    simp [scheduled, hturn, attempt, ProbeId.ofCycle_eq, Nat.add_comm 1]

end InTurn

/-- **Every pass is on schedule.** -/
theorem cycleReport_onSchedule (e : Engine) (stop : Stop) (b : State) :
    OnSchedule e stop b b.ledger.cycles (e.cycleReport stop b) := by
  have hstory : Story e b.ledger.cycles e.hops b [] (e.passOf stop b)
      (e.cycleReport stop b).sendings := by
    rw [sendings_cycleReport]
    exact sendPass_story ..
  constructor
  case began => exact began_cycleReport ..
  case attempts =>
    rw [began_cycleReport]
    exact hstory.inTurn.attempts_eq
  case length_le => exact hstory.inTurn.length_le
  case isComplete_iff =>
    rw [isComplete_cycleReport, isComplete_cycle, hstory.isComplete, length_hops]
  case awaited => exact hstory.awaited
  case counted =>
    intro n
    rw [sendings_cycleReport]
    exact passOf_hop? e stop b n

/-! ### Counting sends -/

/-- An entry that leaves the sends alone leaves their count right. -/
theorem CountsSends.record {l : Ledger} (h : CountsSends s)
    (hl : ∀ n, (l.hop? n).map (·.sent) = (s.ledger.hop? n).map (·.sent)) :
    CountsSends (s.record l) := by
  intro n g hg
  have hsame := hl n
  rw [show l.hop? n = some g from hg] at hsame
  obtain ⟨g', hg', hsent⟩ := Option.map_eq_some_iff.1 hsame.symm
  exact hsent.symm.trans (h n g' hg')

theorem CountsSends.probe (h : CountsSends s) (e : Engine) (cycle hop : Nat) :
    CountsSends (e.probe cycle hop s) := by
  intro n g hg
  have hattempts : (e.probe cycle hop s).attempts =
      ⟨e.attempt cycle hop s.clock, e.outcome cycle hop s⟩ :: s.attempts := rfl
  have hledger : (e.probe cycle hop s).ledger = s.ledger.updateHop hop Hop.recordSent := rfl
  rw [hledger] at hg
  rw [hattempts, List.countP_cons]
  by_cases hn : n = hop
  · subst hn
    rw [Ledger.hop?_updateHop_self] at hg
    obtain ⟨g', hg', rfl⟩ := Option.map_eq_some_iff.1 hg
    have hcount := h n g' hg'
    simp [Hop.recordSent, attempt, hcount]
  · rw [Ledger.hop?_updateHop_of_ne _ hn] at hg
    have hcount := h n g hg
    simp [attempt, hcount, Ne.symm hn]

theorem CountsSends.enterName (h : CountsSends s) (l : Lookup) : CountsSends (enterName l s) := by
  refine enterName_cases (fun _ => h) fun name _ => ?_
  refine h.record fun n => Ledger.map_hop?_updateHop ?_ ..
  intro g
  split <;> rfl

theorem CountsSends.cycle (h : CountsSends s) (e : Engine) (stop : Stop) :
    CountsSends (e.cycle stop s).state := by
  have hgathered : CountsSends (e.gathered stop s) := by
    apply gathered_preserves (P := CountsSends) _ _ _ _ _ _ _ h
    · exact fun cycle hop _ h => h.probe e cycle hop
    · exact fun _ _ h => h
    · exact fun _ _ h => h
    · intro s n ip d h
      exact h.record fun m => Ledger.map_hop?_updateHop (fun g => g.sent_recordReply ip d) ..
    · exact fun _ _ _ h => h
    · exact fun l _ h => h.enterName l
    · exact fun _ _ h => h
  rw [cycle_state]
  exact hgathered.record fun n => Ledger.map_hop?_finalize (fun _ => rfl) ..

/-- **The sends of a hop are its attempts**, in every state between cycles. -/
theorem Reachable.countsSends (h : Reachable e waiting asked s) : CountsSends s := by
  induction h with
  | start =>
      intro n g hg
      obtain ⟨m, -, rfl⟩ := List.mem_map.1 (Ledger.mem_of_hop? hg)
      rfl
  | wait _ _ ih => exact ih
  | markStart _ ih => exact markStart_cases (fun _ => ih) fun _ => ih
  | complete stop _ _ _ _ ih | cut stop _ _ _ ih => exact ih.cycle e stop

/-! ### A whole run -/

/-- Where a run ends in a pass that is cut short, the engine has been told to
stop. -/
theorem Closing.raised {last : State} {cut : List CycleReport} (h : Closing e stop last cut f)
    {r : CycleReport} (hr : r ∈ cut) : stop.raised f = true := by
  cases h with
  | paused => simp at hr
  | cut _ _ hcut => exact raised_of_cycle_cut hcut

section Retold

variable {patience : Nat} {run : RunEnd (List Snapshot)} {known : List State}
  {done cut : List CycleReport}

/-- A run with a pass that is cut short is over. -/
theorem Retold.finished_of_cut
    (h : Retold e waiting asked stop patience s run known done cut) {r : CycleReport}
    (hr : r ∈ cut) : run.ending = .finished := by
  have hraised := h.closing.raised hr
  cases hending : run.ending with
  | finished => rfl
  | unfinished =>
      rcases (h.turns.unfinished_spec hending).1 with ⟨-, hsame⟩ | hunraised
      · -- without a turn there is no pass at all
        have hpasses := h.passes
        rw [hsame, passes_markStart, List.append_assoc, List.self_eq_append_right] at hpasses
        have hnone := (List.append_eq_nil_iff.1 hpasses).2
        simp [hnone] at hr
      · exact absurd (hunraised.symm.trans hraised) Bool.false_ne_true

/-- Only passes made to the end are counted as cycles. -/
theorem Retold.cycles_eq (h : Retold e waiting asked stop patience s run known done cut)
    (hs : Reachable e waiting asked s) :
    run.state.ledger.cycles = s.ledger.cycles + done.length := by
  have hdone : done.countP (·.isComplete) = done.length := List.countP_eq_length.2 h.isComplete
  have hcut : cut.countP (·.isComplete) = 0 := by
    refine List.countP_eq_zero.2 fun r hr => ?_
    rw [h.closing.isCut.2 r hr]
    exact Bool.false_ne_true
  rw [h.reachable.numbered.1, h.passes, List.countP_append, List.countP_append, hdone, hcut,
    hs.numbered.1, Nat.add_zero]

/-- Pass number `k` of a run carries the number of cycle `k` from its start. -/
theorem Retold.cycle_eq (h : Retold e waiting asked stop patience s run known done cut)
    (hs : Reachable e waiting asked s) {k : Nat} {r : CycleReport}
    (hr : (done ++ cut)[k]? = some r) : r.cycle = s.ledger.cycles + k := by
  have hle : k ≤ done.length := by
    have hlt := (List.getElem?_eq_some_iff.1 hr).1
    have hcut := h.closing.isCut.1
    rw [List.length_append] at hlt
    omega
  have hbefore : ((done ++ cut).take k).countP (·.isComplete) = k := by
    rw [List.take_append_of_le_length hle]
    have hall : ∀ r ∈ done.take k, r.isComplete = true := fun r hr =>
      h.isComplete r (List.mem_of_mem_take hr)
    rw [List.countP_eq_length.2 hall, List.length_take_of_le hle]
  have hpass : run.state.passes[s.passes.length + k]? = some r := by
    rw [h.passes, List.append_assoc, List.getElem?_append_right (Nat.le_add_right ..),
      Nat.add_sub_cancel_left, hr]
  rw [h.reachable.numbered.2 _ r hpass, h.passes, List.append_assoc, List.take_length_add_append,
    List.countP_append, hbefore, hs.numbered.1]

end Retold

/-- **A run is on schedule**, from any state that a history can lead to. -/
theorem Reachable.onSchedule (h : Reachable e waiting asked s) (stop : Stop) (patience : Nat) :
    ∃ done cut,
      RunOnSchedule e waiting asked stop s (e.runCollecting stop patience s) done cut := by
  obtain ⟨known, done, cut, hrun⟩ := h.retold stop patience
  refine ⟨done, cut, ?_⟩
  constructor
  case attempts =>
    rw [hrun.reachable.attempts_eq, hrun.passes, List.append_assoc, List.flatMap_append,
      h.attempts_eq]
  case pass =>
    intro k r hr
    have hpass : (e.runCollecting stop patience s).state.passes[
        (e.markStart s).passes.length + k]? = some r := by
      rw [passes_markStart, hrun.passes, List.append_assoc,
        List.getElem?_append_right (Nat.le_add_right ..), Nat.add_sub_cancel_left, hr]
    obtain ⟨b, hb⟩ := hrun.turns.begins h.markStart hpass
    rw [passes_markStart, hrun.passes, List.append_assoc, List.take_length_add_append] at hb
    have hcycle : b.ledger.cycles = s.ledger.cycles + k := by
      rw [← cycle_cycleReport e stop b, hb.report]
      exact hrun.cycle_eq h hr
    refine ⟨b, hb, ?_⟩
    rw [← hcycle, ← hb.report]
    exact cycleReport_onSchedule e stop b
  case isComplete => exact hrun.isComplete
  case length_cut => exact hrun.closing.isCut.1
  case cut =>
    intro r hr
    exact ⟨hrun.closing.isCut.2 r hr, hrun.closing.raised hr, hrun.finished_of_cut hr⟩
  case cycles => exact hrun.cycles_eq h
  case length_seen => exact hrun.length_seen
  case countsSends => exact hrun.reachable.countsSends

/-- **The schedule of a run.**  In every history, whatever the network and the
name service do and whenever the engine is told to stop, the attempts of a run
are those of its passes in order, each pass goes through the positions as
scheduled, and only the last one may be cut short, by the signal; it ends the
run and is not counted. -/
theorem run_on_schedule (e : Engine) (waiting : List Arrival) (asked : List String)
    (visits : List Visit) (rest : Duration) (stop : Stop) (patience : Nat) :
    let s := (e.history waiting asked visits).wait rest
    ∃ done cut, RunOnSchedule e waiting asked stop s (e.runCollecting stop patience s) done cut :=
  ((history_reachable e waiting asked visits).wait rest).onSchedule stop patience

/-- The path of three hops, measured without end, where no probe to the second
hop can be sent and none to the others is answered. -/
def deafForEver : Engine :=
  { pacedForEver with network := ⟨fun _ a => if a.ttl = 2 then .failed else .sent []⟩ }

/-- A run that is told to stop while it makes its fifth attempt, which fails:
that attempt is counted, the pass it belongs to is not. -/
theorem on_schedule_after_fifth_attempt :
    let s := (deafForEver.history [] [] []).wait 0
    let run := deafForEver.runCollecting { attempt := some 5 } 3 s
    (∃ done cut, RunOnSchedule deafForEver [] [] { attempt := some 5 } s run done cut) ∧
      run.state.attempts.reverse.map (fun x => (x.attempt.ttl, x.outcome.isSent)) =
        [(1, true), (2, false), (3, true), (1, true), (2, false)] ∧
      run.state.ledger.hops.map (·.sent) = [2, 2, 1] ∧
      run.state.ledger.cycles = 1 ∧ run.ending = .finished :=
  ⟨run_on_schedule deafForEver [] [] [] 0 { attempt := some 5 } 3, by decide +kernel⟩

end PathMeter.Engine
