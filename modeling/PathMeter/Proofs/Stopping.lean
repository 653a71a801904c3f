import PathMeter.Proofs.Follows
import PathMeter.Proofs.RoundTrip
import PathMeter.Proofs.Shown

/-!
# Being told to stop

The engine looks for the signal before each probe, before the names and in the
pauses between cycles, and nowhere else.  So what follows the signal is bounded
at each of these places: no probe is sent any more, at most the cycle that
listens already is completed and made known, and a pass that is cut short reads
nothing and counts as no cycle.

A run therefore ends within one pause between probes and one time-out after the
signal, or after its start if the signal came before, whatever the interval, the
count and the name service may be (`stops_when_told`).  And it does end, if only
the signal comes.
-/

namespace PathMeter.Engine

variable {e : Engine} {stop : Stop} {waiting : List Arrival} {asked : List String}
  {s f : State}

/-! ### The passes of a run -/

/-- What a send pass logs and queues: an attempt is made only while the engine
has not been told to stop, and nothing is taken off the queue. -/
theorem sendPass_log (e : Engine) (stop : Stop) (cycle : Nat) (hops : List Nat) (s : State)
    (awaited : List Awaited) :
    ∃ sendings : List Sending, (e.sendPass stop cycle hops s awaited).state.attempts =
        sendings.reverse ++ s.attempts ∧
      (e.sendPass stop cycle hops s awaited).state.queue =
        (sendings.flatMap (·.outcome.arrivals)).foldl enqueue s.queue ∧
      ∀ i x, sendings[i]? = some x →
        stop.raisedAt x.attempt.instant (s.attempts.length + i) s.ledger.cycles = false := by
  induction hops generalizing s awaited with
  | nil => exact ⟨[], rfl, rfl, by simp⟩
  | cons hop rest ih =>
      unfold sendPass
      split
      · exact ⟨[], rfl, rfl, by simp⟩
      · next hgo =>
        obtain ⟨sendings, hattempts, hqueue, hunraised⟩ :=
          ih ((e.probe cycle hop s).wait e.config.sendDelay)
            (if (e.outcome cycle hop s).isSent then awaited ++ [⟨hop, s.clock⟩] else awaited)
        refine ⟨⟨e.attempt cycle hop s.clock, e.outcome cycle hop s⟩ :: sendings, ?_, ?_, ?_⟩
        · rw [hattempts, List.reverse_cons, List.append_assoc]
          rfl
        · rw [hqueue, List.flatMap_cons, List.foldl_append]
          rfl
        · intro i x hi
          cases i with
          | zero =>
              obtain rfl := Option.some.inj hi
              exact Bool.eq_false_iff.2 hgo
          | succ i =>
              have hlater := hunraised i x hi
              have hcycles : ((e.probe cycle hop s).wait e.config.sendDelay).ledger.cycles =
                  s.ledger.cycles := Ledger.cycles_updateHop ..
              have hlength : ((e.probe cycle hop s).wait e.config.sendDelay).attempts.length + i =
                  s.attempts.length + (i + 1) := Nat.add_right_comm _ 1 i
              rwa [hcycles, hlength] at hlater

/-- The same of the pass of a cycle, as its report tells it. -/
theorem cycleReport_log (e : Engine) (stop : Stop) (s : State) :
    (e.passOf stop s).state.attempts = (e.cycleReport stop s).sendings.reverse ++ s.attempts ∧
      (e.passOf stop s).state.queue =
        ((e.cycleReport stop s).sendings.flatMap (·.outcome.arrivals)).foldl enqueue s.queue ∧
      ∀ i x, (e.cycleReport stop s).sendings[i]? = some x →
        stop.raisedAt x.attempt.instant (s.attempts.length + i) (e.cycleReport stop s).cycle =
          false := by
  obtain ⟨sendings, hattempts, hqueue, hunraised⟩ :=
    sendPass_log e stop s.ledger.cycles e.hops s []
  have hsince : (e.passOf stop s).state.sendingsSince s = sendings := by
    have hall : (e.passOf stop s).state.attempts = sendings.reverse ++ s.attempts := hattempts
    simp [State.sendingsSince, hall]
  rw [sendings_cycleReport, hsince, cycle_cycleReport]
  exact ⟨hattempts, hqueue, hunraised⟩

/-- Every attempt is in the report of its pass. -/
theorem Reachable.attempts_eq (h : Reachable e waiting asked s) :
    s.attempts.reverse = s.passes.flatMap (·.sendings) := by
  have hcycle : ∀ {s : State} (stop : Stop),
      s.attempts.reverse = s.passes.flatMap (·.sendings) →
        (e.cycle stop s).state.attempts.reverse =
          (e.cycle stop s).state.passes.flatMap (·.sendings) := by
    intro s stop ih
    rw [cycle_attempts, (cycleReport_log e stop s).1, cycle_passes, List.reverse_append,
      List.reverse_reverse, ih, List.flatMap_append, List.flatMap_singleton]
  induction h with
  | start => rfl
  | wait _ _ ih => exact ih
  | markStart _ ih => exact markStart_cases (fun _ => ih) fun _ => ih
  | complete stop _ _ _ _ ih | cut stop _ _ _ ih => exact hcycle stop ih

/-- A state in which a pass of a run begins. -/
structure Begins (e : Engine) (waiting : List Arrival) (asked : List String) (stop : Stop)
    (b : State) (earlier : List CycleReport) (r : CycleReport) : Prop where
  reachable : Reachable e waiting asked b
  unraised : stop.raised b = false
  passes : b.passes = earlier
  report : e.cycleReport stop b = r

theorem Reachable.begins_first (hs : Reachable e waiting asked s) (hstop : stop.raised s = false)
    (hfirst : s.passes ++ [e.cycleReport stop s] <+: f.passes) {r : CycleReport}
    (hr : f.passes[s.passes.length]? = some r) :
    Begins e waiting asked stop s (f.passes.take s.passes.length) r := by
  obtain ⟨later, hlater⟩ := hfirst
  rw [List.append_assoc] at hlater
  rw [← hlater] at hr ⊢
  refine ⟨hs, hstop, List.take_left.symm, ?_⟩
  simpa using hr

theorem Reachable.begins_only (hs : Reachable e waiting asked s) (hstop : stop.raised s = false)
    (hpasses : f.passes = s.passes ++ [e.cycleReport stop s]) {i : Nat} {r : CycleReport}
    (hr : f.passes[s.passes.length + i]? = some r) :
    ∃ b, Begins e waiting asked stop b (f.passes.take (s.passes.length + i)) r := by
  cases i with
  | zero => exact ⟨s, hs.begins_first hstop (hpasses ▸ List.prefix_refl _) hr⟩
  | succ i => simp [hpasses] at hr

section Turns

variable {turns : Nat} {mark : Duration} {completed : Nat} {known : List State} {ending : Ending}

/-- Every pass of a run begins before the engine is told to stop. -/
theorem Turns.begins (h : Turns e stop turns mark completed s known f ending)
    (hs : Reachable e waiting asked s) {i : Nat} {r : CycleReport}
    (hr : f.passes[s.passes.length + i]? = some r) :
    ∃ b, Begins e waiting asked stop b (f.passes.take (s.passes.length + i)) r := by
  induction h generalizing i with
  | unfinished | rest => simp at hr
  | cut hstop _ _ => exact hs.begins_only hstop (cycle_passes ..) hr
  | enough hstop _ _ _ => exact hs.begins_only hstop (passes_closed ..) hr
  | told hstop _ _ _ _ =>
      exact hs.begins_only hstop ((passes_pause ..).trans (passes_closed ..)) hr
  | @next turns mark completed s f known ending hstop _ hcomplete _ _ h ih =>
      have hpasses := (passes_pause e stop (e.closed stop mark s)).trans (passes_closed ..)
      cases i with
      | zero => exact ⟨s, hs.begins_first hstop (hpasses ▸ h.passes_extend) hr⟩
      | succ i =>
          have hlength : (e.pause stop (e.closed stop mark s)).1.passes.length + i =
              s.passes.length + (i + 1) := by
            rw [hpasses, List.length_append, List.length_singleton]
            omega
          rw [← hlength] at hr ⊢
          exact ih ((hs.complete stop mark hstop hcomplete).pause stop) hr

/-! ### The log and the clock of a run -/

theorem Turns.follows (h : Turns e stop turns mark completed s known f ending) : Follows s f := by
  induction h with
  | unfinished | rest => exact .refl _
  | cut => exact .cycle ..
  | enough => exact .closed ..
  | told => exact (Follows.closed ..).trans (.pause ..)
  | next _ _ _ _ _ _ ih => exact (Follows.closed ..).trans ((Follows.pause ..).trans ih)

/-- A state made known is in the log of the run. -/
theorem Turns.mem_timeline (h : Turns e stop turns mark completed s known f ending) {i : Nat}
    {c : State} (hi : known[i]? = some c) : (⟨c.clock, c.ledger⟩ : Moment) ∈ f.timeline := by
  have hkeep : ∀ {s f : State}, Follows s f → ∀ m ∈ s.timeline, m ∈ f.timeline := by
    intro s f hf m hm
    obtain ⟨new, htimeline, -⟩ := hf.timeline
    rw [htimeline]
    exact List.mem_append_right _ hm
  induction h generalizing i with
  | unfinished | rest | cut => simp at hi
  | enough =>
      obtain ⟨-, rfl⟩ := eq_of_getElem?_singleton hi
      exact List.mem_cons_self
  | told =>
      obtain ⟨-, rfl⟩ := eq_of_getElem?_singleton hi
      exact hkeep (.pause ..) _ List.mem_cons_self
  | next _ _ _ _ _ h ih =>
      cases i with
      | zero =>
          obtain rfl := Option.some.inj hi
          exact hkeep ((Follows.pause ..).trans h.follows) _ List.mem_cons_self
      | succ i => exact ih hi

/-- **A run ends within a pause and a time-out** after the engine is told to stop,
or after its start if that is later. -/
theorem Turns.clock_le (h : Turns e stop turns mark completed s known f ending)
    (hs : Reachable e waiting asked s) {t : Duration} (htold : stop.toldBy f t = true) :
    f.clock ≤ max t s.clock + e.config.sendDelay + e.config.timeout := by
  have hlate : ∀ {s : State} {c : Duration}, c ≤ t + e.config.sendDelay + e.config.timeout →
      c ≤ max t s.clock + e.config.sendDelay + e.config.timeout := by
    intro s c hc
    have hmax : t ≤ max t s.clock := Nat.le_max_left _ _
    exact Nat.le_trans hc (Nat.add_le_add_right (Nat.add_le_add_right hmax _) _)
  have hclosed : ∀ {s f : State} {mark : Duration}, Reachable e waiting asked s →
      stop.raised s = false → Follows (e.closed stop mark s) f → stop.toldBy f t = true →
      (e.closed stop mark s).clock ≤ t + e.config.sendDelay + e.config.timeout := by
    intro s f mark hs hstop hf htold
    exact cycle_clock_le hs.logged hstop
      (((Follows.refl _).record (Nat.le_succ _)).trans hf) htold
  induction h with
  | unfinished | rest =>
      exact Nat.le_add_right_of_le (Nat.le_add_right_of_le (Nat.le_max_right _ _))
  | cut hstop _ _ => exact hlate (cycle_clock_le hs.logged hstop (.refl _) htold)
  | enough hstop _ _ _ => exact hlate (hclosed hs hstop (.refl _) htold)
  | @told turns mark completed s hstop _ hcomplete _ hpause =>
      have hend := hclosed hs hstop (.pause e stop _) htold
      rcases pause_told hpause with ⟨-, heq⟩ | ⟨hgo, t', ht', heq⟩
      · rw [heq]
        exact hlate hend
      · rw [heq] at htold
        have hlogged := (hs.complete stop mark hstop hcomplete).logged
        have hle : t' ≤ t := hlogged.instant_le hgo htold t' ht'
        rw [heq]
        exact hlate (Nat.max_le.2 ⟨hend, Nat.le_add_right_of_le (Nat.le_add_right_of_le hle)⟩)
  | @next turns mark completed s f known ending hstop _ hcomplete _ hpause h ih =>
      have hnext := (hs.complete stop mark hstop hcomplete).pause stop
      obtain ⟨hwait, -, hgo⟩ := pause_undisturbed hpause
      have hbefore : (e.pause stop (e.closed stop mark s)).1.clock ≤ t := by
        apply h.follows.clock_le hnext.logged _ htold
        rw [hwait]
        exact hgo
      have hle := ih hnext htold
      rw [Nat.max_eq_left hbefore] at hle
      exact hlate hle

/-! ### Runs do end -/

/-- A completed cycle takes its pauses and makes its attempts. -/
theorem cycle_progress (h : (e.cycle stop s).isComplete = true) :
    s.clock + e.config.maxHops.toNat * e.config.sendDelay ≤ (e.cycle stop s).state.clock ∧
      (e.cycle stop s).state.attempts.length = s.attempts.length + e.config.maxHops.toNat := by
  have hcomplete : (e.passOf stop s).isComplete = true := (isComplete_cycle e stop s).symm.trans h
  have hstory : Story e s.ledger.cycles e.hops s [] (e.passOf stop s)
      ((e.passOf stop s).state.sendingsSince s) := sendPass_story ..
  have hlength := hstory.isComplete.1 hcomplete
  rw [length_hops] at hlength
  constructor
  · have hlater : (e.passOf stop s).state.clock ≤ (e.cycle stop s).state.clock := by
      rw [cycle_of_complete hcomplete]
      exact ((Follows.heardIn e stop s).trans (.nameHops ..)).clock
    rw [hstory.clock, hlength] at hlater
    exact hlater
  · rw [cycle_attempts, hstory.attempts, List.length_append, List.length_reverse, hlength,
      Nat.add_comm]

private theorem add_turns_le {start cycleEnd pauses interval turns finish : Nat}
    (hcycle : start + pauses ≤ cycleEnd)
    (hrest : cycleEnd + interval + turns * (pauses + interval) ≤ finish) :
    start + (turns + 1) * (pauses + interval) ≤ finish := by
  rw [Nat.succ_mul]
  omega

/-- A run whose turns did not suffice has not been told to stop in any of them,
and every turn has taken its time, made its attempts and counted its cycle. -/
theorem Turns.unfinished_spec (h : Turns e stop turns mark completed s known f ending)
    (hending : ending = .unfinished) :
    (turns = 0 ∧ f = s ∨ stop.raised f = false) ∧
      s.clock + turns * (e.config.maxHops.toNat * e.config.sendDelay + e.config.interval) ≤
        f.clock ∧
      s.attempts.length + turns * e.config.maxHops.toNat = f.attempts.length ∧
      s.ledger.cycles + turns = f.ledger.cycles := by
  induction h with
  | unfinished => exact ⟨Or.inl ⟨rfl, rfl⟩, by simp, by simp, rfl⟩
  | rest | cut | enough | told => cases hending
  | @next turns mark completed s f known ending _ _ hcomplete _ hpause h ih =>
      obtain ⟨hwait, -, hgo⟩ := pause_undisturbed hpause
      obtain ⟨hraised, hclock, hattempts, hcycles⟩ := ih hending
      obtain ⟨hclock', hattempts'⟩ := cycle_progress hcomplete
      rw [hwait] at hraised hclock hattempts hcycles
      refine ⟨Or.inr ?_, ?_, ?_, ?_⟩
      · rcases hraised with ⟨-, rfl⟩ | hraised
        · exact hgo
        · exact hraised
      · exact add_turns_le hclock' hclock
      · have hnext : ((e.closed stop mark s).wait e.config.interval).attempts.length =
            s.attempts.length + e.config.maxHops.toNat := hattempts'
        rw [← hattempts, hnext, Nat.succ_mul, Nat.add_comm (turns * _), Nat.add_assoc]
      · have hnext : ((e.closed stop mark s).wait e.config.interval).ledger.cycles =
            s.ledger.cycles + 1 := cycles_closed e stop mark s
        omega

end Turns

/-- More turns change nothing about a run that has ended. -/
theorem cycles_settled {σ : Type} {onCycle : σ → Snapshot → σ} {turns : Nat} {mark : Duration}
    {completed : Nat} {seen : σ}
    (h : (e.cycles stop onCycle turns mark completed s seen).ending = .finished) (n : Nat) :
    e.cycles stop onCycle (turns + n) mark completed s seen =
      e.cycles stop onCycle turns mark completed s seen := by
  induction turns generalizing mark completed s seen with
  | zero => cases h
  | succ turns ih =>
      rw [Nat.add_right_comm, cycles_succ, cycles_succ]
      rw [cycles_succ] at h
      split
      · rfl
      · next hgo =>
        rw [if_neg hgo] at h
        split
        · next hcomplete =>
          rw [if_pos hcomplete] at h
          split
          · rfl
          · next hagain =>
            rw [if_neg hagain] at h
            split
            · rfl
            · next hpause =>
              rw [if_neg hpause] at h
              exact ih h
        · rfl

section Returns

variable {patience : Nat}

theorem turns_eq_patience (h : e.config.count = 0) (patience : Nat) :
    e.turns patience = patience := by
  rw [turns, Config.isUnbounded, decide_eq_true h]
  rfl

/-- A run that has been told to stop is over. -/
theorem finished_of_raised (hcount : e.config.count = 0) (hpatience : 0 < patience)
    (h : stop.raised (e.runCollecting stop patience s).state = true) :
    (e.runCollecting stop patience s).ending = .finished := by
  cases hending : (e.runCollecting stop patience s).ending with
  | finished => rfl
  | unfinished =>
      obtain ⟨known, hrun, -, -⟩ := run_turns e stop patience s
      rw [turns_eq_patience hcount] at hrun
      rcases (hrun.unfinished_spec hending).1 with ⟨hzero, -⟩ | hunraised
      · omega
      · exact absurd (hunraised.symm.trans h) Bool.false_ne_true

/-- The signal comes: at an instant that the clock gets to, while an attempt is
made, or after a cycle. -/
def Stop.Comes (e : Engine) (stop : Stop) : Prop :=
  (∃ t, stop.instant = some t ∧
      0 < e.config.maxHops.toNat * e.config.sendDelay + e.config.interval) ∨
    (∃ n, stop.attempt = some n ∧ 0 < e.config.maxHops.toNat) ∨ ∃ n, stop.cycle = some n

private theorem le_of_turns_le {turns step start finish : Nat} (h : 0 < step)
    (hle : start + (turns + 1) * step ≤ finish) : turns ≤ finish := by
  have hmul : turns + 1 ≤ (turns + 1) * step := Nat.le_mul_of_pos_right _ h
  omega

/-- A run to which the signal comes ends after so many turns. -/
theorem exists_finished (hcount : e.config.count = 0) (h : stop.Comes e) (s : State) :
    ∃ patience, (e.runCollecting stop patience s).ending = .finished := by
  -- it is over after one turn more than the number that the signal names
  have hover : ∀ n : Nat,
      (∀ f : State,
        s.clock + (n + 1) * (e.config.maxHops.toNat * e.config.sendDelay + e.config.interval) ≤
          f.clock →
        s.attempts.length + (n + 1) * e.config.maxHops.toNat ≤ f.attempts.length →
        n ≤ f.ledger.cycles → stop.raised f = true) →
      (e.runCollecting stop (n + 1) s).ending = .finished := by
    intro n hraised
    cases hending : (e.runCollecting stop (n + 1) s).ending with
    | finished => rfl
    | unfinished =>
        obtain ⟨known, hrun, -, -⟩ := run_turns e stop (n + 1) s
        rw [turns_eq_patience hcount] at hrun
        obtain ⟨-, hclock, hattempts, hcycles⟩ := hrun.unfinished_spec hending
        rw [clock_markStart] at hclock
        rw [attempts_markStart] at hattempts
        have htold := hraised _ hclock (Nat.le_of_eq hattempts) (by omega)
        rw [← hending]
        exact finished_of_raised hcount (Nat.succ_pos n) htold
  rcases h with ⟨t, ht, hpos⟩ | ⟨n, hn, hpos⟩ | ⟨n, hn⟩
  · refine ⟨t + 1, hover t fun f hclock _ _ => ?_⟩
    exact Stop.raisedAt_iff.2 (Or.inl ⟨t, ht, le_of_turns_le hpos hclock⟩)
  · refine ⟨n + 1, hover n fun f _ hattempts _ => ?_⟩
    exact Stop.raisedAt_iff.2 (Or.inr (Or.inl ⟨n, hn, le_of_turns_le hpos hattempts⟩))
  · refine ⟨n + 1, hover n fun f _ _ hcycles => ?_⟩
    exact Stop.raisedAt_iff.2 (Or.inr (Or.inr ⟨n, hn, hcycles⟩))

end Returns

/-- **Runs do end**, if they have a count or the signal comes: given turns enough,
more of them change nothing. -/
theorem run_returns (e : Engine) (stop : Stop) (s : State)
    (h : 0 < e.config.count ∨ stop.Comes e) :
    ∃ run, run.ending = .finished ∧
      ∃ enough, ∀ patience, enough ≤ patience → e.runCollecting stop patience s = run := by
  rcases Nat.eq_zero_or_pos e.config.count with hzero | hpos
  · obtain ⟨enough, hfinished⟩ := exists_finished hzero (h.resolve_left (by omega)) s
    refine ⟨_, hfinished, enough, fun patience hle => ?_⟩
    obtain ⟨more, rfl⟩ := Nat.exists_eq_add_of_le hle
    rw [runCollecting, run, turns_eq_patience hzero] at hfinished ⊢
    rw [runCollecting, run, turns_eq_patience hzero]
    exact cycles_settled hfinished more
  · refine ⟨e.runCollecting stop 0 s, ((run_counted e stop 0 s).1 hpos).1, 0, fun patience _ => ?_⟩
    have hbounded : ¬ e.config.isUnbounded = true := by
      simp [Config.isUnbounded]
      omega
    rw [runCollecting, runCollecting, run, run, turns, turns, if_neg hbounded, if_neg hbounded]

/-! ### How a run heeds the signal -/

/-- How a run heeds the signal: `done` are the passes that it makes to the end, and
`cut` is the one that is cut short, if any. -/
structure Heeded (e : Engine) (waiting : List Arrival) (asked : List String) (stop : Stop)
    (s : State) (run : RunEnd (List Snapshot)) (done cut : List CycleReport) : Prop where
  passes : run.state.passes = s.passes ++ done ++ cut
  isComplete : ∀ r ∈ done, r.isComplete = true
  isCut : cut.length ≤ 1 ∧ ∀ r ∈ cut, r.isComplete = false
  /-- Each pass made to the end is made known once, and none that is cut short. -/
  length_seen : run.seen.length = done.length
  /-- Nothing is attempted outside the passes. -/
  logged : run.state.attempts.reverse = run.state.passes.flatMap (·.sendings)
  /-- No attempt is made once the engine has been told. -/
  attempts : ∀ before r after, done ++ cut = before ++ r :: after →
    ∀ i x, r.sendings[i]? = some x →
      stop.raisedAt x.attempt.instant
        (((s.passes ++ before).flatMap (·.sendings)).length + i) r.cycle = false
  /-- If a cycle is not the last one made known, the engine has not been told by
  then. -/
  shown : ∀ i snapshot, run.seen[i]? = some snapshot → i + 1 < run.seen.length →
    ∃ m ∈ run.state.timeline, m.ledger.snapshot = snapshot ∧
      stop.raisedAt m.instant ((s.passes ++ done.take (i + 1)).flatMap (·.sendings)).length
        snapshot.cycles = false
  /-- A pass that is cut short follows on what was shown last.  It takes nothing
  off the queue and counts neither as a cycle nor as time. -/
  cut : ∀ r ∈ cut, r.reads = [] ∧
    ∃ b, Begins e waiting asked stop b (s.passes ++ done) r ∧
      b.snapshot = run.seen.getLastD (e.markStart s).snapshot ∧
      run.state.queue = (r.sendings.flatMap (·.outcome.arrivals)).foldl enqueue b.queue ∧
      run.state.ledger.cycles = b.ledger.cycles ∧
      run.state.ledger.duration = b.ledger.duration
  /-- Nothing goes on for longer than a pause and a time-out. -/
  inTime : ∀ t, stop.toldBy run.state t = true →
    run.state.clock ≤ max t s.clock + e.config.sendDelay + e.config.timeout

theorem reads_of_cut (h : (e.cycle stop s).isComplete = false) :
    (e.cycleReport stop s).reads = [] := by
  rw [cycleReport, if_neg (not_complete_passOf h)]
  rfl

theorem queue_of_cut (h : (e.cycle stop s).isComplete = false) :
    (e.cycle stop s).state.queue =
      ((e.cycleReport stop s).sendings.flatMap (·.outcome.arrivals)).foldl enqueue s.queue := by
  rw [cycle_of_cut (not_complete_passOf h)]
  exact (cycleReport_log e stop s).2.1

/-- A pass begins with the attempts of those before it behind, and makes its own
before the engine is told. -/
theorem Begins.attempts {b : State} {earlier : List CycleReport} {r : CycleReport}
    (h : Begins e waiting asked stop b earlier r) {i : Nat} {x : Sending}
    (hx : r.sendings[i]? = some x) :
    stop.raisedAt x.attempt.instant ((earlier.flatMap (·.sendings)).length + i) r.cycle =
      false := by
  obtain ⟨hb, -, rfl, rfl⟩ := h
  rw [← hb.attempts_eq, List.length_reverse]
  exact (cycleReport_log e stop b).2.2 i x hx

/-- **How a run heeds the signal**, from any state that a history can lead to. -/
theorem Reachable.heeded (h : Reachable e waiting asked s) (stop : Stop) (patience : Nat) :
    ∃ done cut, Heeded e waiting asked stop s (e.runCollecting stop patience s) done cut := by
  obtain ⟨known, done, cut, hrun⟩ := h.retold stop patience
  refine ⟨done, cut, ?_⟩
  constructor
  case passes => exact hrun.passes
  case isComplete => exact hrun.isComplete
  case isCut => exact hrun.closing.isCut
  case length_seen => exact hrun.length_seen
  case logged => exact hrun.reachable.attempts_eq
  case attempts =>
    intro before r after hsplit i x hx
    have hall : (e.runCollecting stop patience s).state.passes =
        (s.passes ++ before) ++ r :: after := by
      rw [hrun.passes, List.append_assoc, hsplit, List.append_assoc]
    have hr : (e.runCollecting stop patience s).state.passes[(e.markStart s).passes.length +
        before.length]? = some r := by
      rw [passes_markStart, ← List.length_append, hall]
      simp
    obtain ⟨b, hb⟩ := hrun.turns.begins h.markStart hr
    rw [passes_markStart, ← List.length_append, hall, List.take_left] at hb
    exact hb.attempts hx
  case shown =>
    intro i snapshot hi hlt
    obtain ⟨c, hc, rfl, hknown, hpasses⟩ := hrun.known_spec h hi
    refine ⟨_, hrun.turns.mem_timeline hc, rfl, ?_⟩
    rw [← hpasses, ← hknown.reachable.attempts_eq, List.length_reverse]
    rw [hrun.length_seen, hrun.length_done] at hlt
    exact hknown.undisturbed hlt
  case cut =>
    intro r hr
    have hlast := hrun.passesLast
    have hclosing := hrun.closing
    rw [hrun.seen, getLastD_snapshot]
    generalize (e.runCollecting stop patience s).state = f at hclosing ⊢
    cases hclosing with
    | paused => simp at hr
    | cut d hstop hcut =>
        rw [List.mem_singleton.1 hr]
        exact ⟨reads_of_cut hcut, _, ⟨hrun.reachableLast.wait d, hstop, hlast, rfl⟩, rfl,
          queue_of_cut hcut, cycle_cycles .., duration_cycle ..⟩
  case inTime =>
    intro t htold
    have hle := hrun.turns.clock_le h.markStart htold
    rwa [clock_markStart] at hle

/-- **The engine stops when it is told to.**  In every history, whatever the
network and the name service do and whenever the signal comes: no probe is sent
any more, at most one more cycle is made known, a pass that is cut short leaves
no trace but its probes, and the run is over within a pause between probes and a
time-out, from the signal or from its start.  A run that has been told is over,
and one that will be told does end. -/
theorem stops_when_told (e : Engine) (waiting : List Arrival) (asked : List String)
    (visits : List Visit) (rest : Duration) (stop : Stop) (patience : Nat) :
    let s := (e.history waiting asked visits).wait rest
    let run := e.runCollecting stop patience s
    (∃ done cut, Heeded e waiting asked stop s run done cut) ∧
      (stop.raised run.state = true → 0 < patience → run.ending = .finished) ∧
      (0 < e.config.count ∨ stop.Comes e →
        ∃ final : RunEnd (List Snapshot), final.ending = .finished ∧
          ∃ enough, ∀ turns, enough ≤ turns → e.runCollecting stop turns s = final) := by
  intro s run
  have hs : Reachable e waiting asked s := (history_reachable e waiting asked visits).wait rest
  refine ⟨hs.heeded stop patience, fun hraised hpatience => ?_, run_returns e stop s⟩
  rcases Nat.eq_zero_or_pos e.config.count with hzero | hpos
  · exact finished_of_raised hzero hpatience hraised
  · exact ((run_counted e stop patience s).1 hpos).1

/-- The path of three hops, measured without end. -/
def pacedForEver : Engine :=
  { pacedTrial with config := { pacedTrial.config with count := 0 } }

/-- The signal in the pause after the last probe: the cycle goes on to its full
time-out and is made known, and that is the end. -/
theorem stops_after_last_pause :
    let stop : Stop := { instant := some (25 * Duration.millisecond) }
    let s := (pacedForEver.history [] [] []).wait 0
    let run := pacedForEver.runCollecting stop 3 s
    (∃ done cut, Heeded pacedForEver [] [] stop s run done cut) ∧
      run.ending = .finished ∧ run.state.attempts.length = 3 ∧ run.seen.length = 1 ∧
      run.state.clock = 2030 * Duration.millisecond ∧
      run.state.clock ≤
        max (25 * Duration.millisecond) s.clock + pacedForEver.config.sendDelay +
          pacedForEver.config.timeout := by
  intro stop s run
  obtain ⟨hheeded, hfinished, -⟩ := stops_when_told pacedForEver [] [] [] 0 stop 3
  have hexists : ∃ done cut, Heeded pacedForEver [] [] stop s run done cut := hheeded
  obtain ⟨done, cut, h⟩ := hexists
  have htold : stop.toldBy run.state (25 * Duration.millisecond) = true := by decide +kernel
  have hraised : stop.raised run.state = true := by decide +kernel
  have hshape : run.state.attempts.length = 3 ∧ run.seen.length = 1 ∧
      run.state.clock = 2030 * Duration.millisecond := by decide +kernel
  exact ⟨⟨done, cut, h⟩, hfinished hraised (by decide), hshape.1, hshape.2.1, hshape.2.2,
    h.inTime _ htold⟩

end PathMeter.Engine
