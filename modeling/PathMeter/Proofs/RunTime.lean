import Mathlib.Data.List.TakeWhile
import PathMeter.Proofs.Schedule

/-!
# What the duration counts

The duration of a measurement is the time of its runs, each from its start to
the end of its last completed cycle.  Intervals between cycles are in it; the
time between two runs, the wait after the last cycle of a run and a pass that
was cut short are not.

The log tells when a cycle was completed: the count of cycles goes up
(`completions`).  It does so at the end of every pass that was made to the end,
and nowhere else (`Counted`).  The engine adds up differences to a mark instead,
which moves with every completed cycle and starts anew with every run.  Through
the turns of a run, what has been added since its start is the mark less the
start (`Accounted`), because a cycle that is under way changes neither count nor
duration, and a completed one moves mark and duration alike.

Only the first runs could break the sum, for they set the duration back to
zero.  They do so only as long as no cycle is completed, when it is zero
already.
-/

namespace PathMeter.Engine

/-- How many cycles are completed at the end of a log, newest moment first,
that follows `count` completed ones. -/
def countAfter (count : Nat) (log : List Moment) : Nat :=
  log.head?.elim count (·.ledger.cycles)

/-- The instants at which the count of completed cycles went up, newest first, in
a log that follows `count` completed ones. -/
def completions (count : Nat) : List Moment → List Duration
  | [] => []
  | m :: earlier =>
    if countAfter count earlier < m.ledger.cycles then m.instant :: completions count earlier
    else completions count earlier

/-- The instant at which the count of completed cycles last went up. -/
def lastCompletion (count : Nat) (log : List Moment) : Option Duration :=
  (completions count log).head?

/-- The time that a run has taken by the end of a log of it: from its start to
the end of its last completed cycle, none if there is no such cycle. -/
def runTime (start : State) (log : List Moment) : Duration :=
  match lastCompletion start.ledger.cycles log with
  | some ended => ended - start.clock
  | none => 0

/-- The time that the runs of some visits take, from a state on. -/
def totalTime (e : Engine) : State → List Visit → Duration
  | _, [] => 0
  | s, v :: rest =>
    runTime (s.wait v.rest) ((e.visit s v).momentsSince (s.wait v.rest)) +
      e.totalTime (e.visit s v) rest

/-- The completed cycles of a run, told by its log and by its passes: `done` are
those that it makes to the end, and `cut` is the one that is cut short, if
any. -/
structure Counted (e : Engine) (waiting : List Arrival) (asked : List String) (stop : Stop)
    (start after : State) (done cut : List CycleReport) : Prop where
  passes : after.passes = start.passes ++ done ++ cut
  isComplete : ∀ r ∈ done, r.isComplete = true
  isCut : cut.length ≤ 1 ∧ ∀ r ∈ cut, r.isComplete = false
  /-- The count goes up once for every pass made to the end. -/
  length_completions :
    (completions start.ledger.cycles (after.momentsSince start)).length = done.length
  cycles : after.ledger.cycles = start.ledger.cycles + done.length
  /-- It goes up at the instant at which the cycle of that pass is over. -/
  completed : ∀ i r, done[i]? = some r →
    ∃ b, Begins e waiting asked stop b (start.passes ++ done.take i) r ∧
      (completions start.ledger.cycles (after.momentsSince start)).reverse[i]? =
        some (e.cycle stop b).state.clock

/-! ### Logs -/

section Log

variable {start : State} {total : Duration} {new log : List Moment} {m : Moment}

theorem runTime_eq (start : State) (log : List Moment) :
    runTime start log =
      (completions start.ledger.cycles log).headD start.clock - start.clock := by
  unfold runTime lastCompletion
  cases completions start.ledger.cycles log with
  | nil => exact (Nat.sub_self _).symm
  | cons ended earlier => rfl

theorem countAfter_append_quiet {count : Nat}
    (hnew : ∀ m ∈ new, m.ledger.cycles = countAfter count log) :
    countAfter count (new ++ log) = countAfter count log := by
  cases new with
  | nil => rfl
  | cons m new => exact hnew m List.mem_cons_self

/-- No cycle is completed where the count stays the same. -/
theorem completions_append_quiet {count : Nat}
    (hnew : ∀ m ∈ new, m.ledger.cycles = countAfter count log) :
    completions count (new ++ log) = completions count log := by
  induction new with
  | nil => rfl
  | cons m new ih =>
      have hrest : ∀ m ∈ new, m.ledger.cycles = countAfter count log :=
        fun m' hm' => hnew m' (List.mem_cons_of_mem m hm')
      have hsame : m.ledger.cycles = countAfter count (new ++ log) :=
        (hnew m List.mem_cons_self).trans (countAfter_append_quiet hrest).symm
      rw [List.cons_append, completions, if_neg (Nat.not_lt_of_le (Nat.le_of_eq hsame)),
        ih hrest]

theorem runTime_append_quiet
    (hnew : ∀ m ∈ new, m.ledger.cycles = countAfter start.ledger.cycles log) :
    runTime start (new ++ log) = runTime start log := by
  rw [runTime_eq, runTime_eq, completions_append_quiet hnew]

/-- A log whose every moment shows the time of earlier runs and of its own run
up to this moment. -/
def Told (start : State) (total : Duration) (log : List Moment) : Prop :=
  ∀ m earlier, m :: earlier <:+ log → m.ledger.duration = total + runTime start (m :: earlier)

theorem Told.nil : Told start total [] :=
  fun _ _ h => nomatch List.suffix_nil.1 h

theorem Told.cons (h : Told start total log)
    (hm : m.ledger.duration = total + runTime start (m :: log)) : Told start total (m :: log) := by
  intro m' earlier hsuffix
  rcases List.suffix_cons_iff.1 hsuffix with heq | hsuffix
  · obtain ⟨rfl, rfl⟩ := List.cons.inj heq
    exact hm
  · exact h m' earlier hsuffix

theorem Told.append_quiet (h : Told start total log)
    (hnew : ∀ m ∈ new, m.ledger.cycles = countAfter start.ledger.cycles log ∧
      m.ledger.duration = total + runTime start log) : Told start total (new ++ log) := by
  induction new with
  | nil => exact h
  | cons m new ih =>
      have hrest := ih fun m' hm' => hnew m' (List.mem_cons_of_mem m hm')
      refine hrest.cons ?_
      rw [← List.cons_append, runTime_append_quiet fun m' hm' => (hnew m' hm').1]
      exact (hnew m List.mem_cons_self).2

end Log

/-! ### Within a cycle -/

theorem clock_le_cycle (e : Engine) (stop : Stop) (s : State) :
    s.clock ≤ (e.cycle stop s).state.clock := by
  rw [cycle_state]
  exact (cycle_course e stop s).clock

/-- Every moment of a cycle shows the count and the duration of its beginning. -/
theorem uncounted_cycle (e : Engine) (stop : Stop) (s : State) :
    ∀ m ∈ (e.cycle stop s).state.momentsSince s, s.clock ≤ m.instant ∧
      m.ledger.cycles = s.ledger.cycles ∧ m.ledger.duration = s.ledger.duration := by
  intro m hm
  rcases end_or_underway hm with rfl | hunderway
  · exact ⟨clock_le_cycle e stop s, cycle_cycles e stop s, duration_cycle e stop s⟩
  · rw [hunderway.2.frame]
    exact ⟨hunderway.1, rfl, rfl⟩

/-! ### Within a run -/

/-- A state within a run, where earlier runs have taken `total` and the completed
cycles of this one ended at `ends`, newest first.  The mark is the newest of them
or else the start. -/
structure Accounted (start : State) (total : Duration) (ends : List Duration) (log : List Moment)
    (s : State) : Prop where
  timeline : s.timeline = log ++ start.timeline
  count : countAfter start.ledger.cycles log = s.ledger.cycles
  completions : completions start.ledger.cycles log = ends
  start_le : start.clock ≤ ends.headD start.clock
  mark_le : ends.headD start.clock ≤ s.clock
  since : ∀ m ∈ log, start.clock ≤ m.instant
  duration : s.ledger.duration = total + (ends.headD start.clock - start.clock)
  told : Told start total log

namespace Accounted

variable {e : Engine} {stop : Stop} {start s s' : State} {total : Duration}
  {ends : List Duration} {log new : List Moment}

theorem runTime_eq (h : Accounted start total ends log s) :
    runTime start log = ends.headD start.clock - start.clock := by
  rw [Engine.runTime_eq, h.completions]

theorem start_le_clock (h : Accounted start total ends log s) : start.clock ≤ s.clock :=
  Nat.le_trans h.start_le h.mark_le

theorem wait (h : Accounted start total ends log s) (d : Duration) :
    Accounted start total ends log (s.wait d) :=
  ⟨h.timeline, h.count, h.completions, h.start_le, Nat.le_add_right_of_le h.mark_le, h.since,
    h.duration, h.told⟩

theorem pause (h : Accounted start total ends log s) (e : Engine) (stop : Stop) :
    Accounted start total ends log (e.pause stop s).1 := by
  obtain ⟨d, hd⟩ := exists_pause_eq_wait e stop s
  rw [hd]
  exact h.wait d

/-- Entries that change neither count nor duration. -/
theorem quiet (h : Accounted start total ends log s) (htimeline : s'.timeline = new ++ s.timeline)
    (hclock : s.clock ≤ s'.clock) (hcycles : s'.ledger.cycles = s.ledger.cycles)
    (hduration : s'.ledger.duration = s.ledger.duration)
    (hnew : ∀ m ∈ new, s.clock ≤ m.instant ∧ m.ledger.cycles = s.ledger.cycles ∧
      m.ledger.duration = s.ledger.duration) :
    Accounted start total ends (new ++ log) s' := by
  have hcount : ∀ m ∈ new, m.ledger.cycles = countAfter start.ledger.cycles log :=
    fun m hm => (hnew m hm).2.1.trans h.count.symm
  constructor
  case timeline => rw [htimeline, h.timeline, List.append_assoc]
  case count => rw [countAfter_append_quiet hcount, h.count, hcycles]
  case completions => rw [completions_append_quiet hcount, h.completions]
  case start_le => exact h.start_le
  case mark_le => exact Nat.le_trans h.mark_le hclock
  case since =>
    intro m hm
    rcases List.mem_append.1 hm with hm | hm
    · exact Nat.le_trans h.start_le_clock (hnew m hm).1
    · exact h.since m hm
  case duration => rw [hduration, h.duration]
  case told =>
    refine h.told.append_quiet fun m hm => ⟨hcount m hm, ?_⟩
    rw [(hnew m hm).2.2, h.duration, h.runTime_eq]

/-- A cycle under way is not counted. -/
theorem cycle (h : Accounted start total ends log s) (e : Engine) (stop : Stop) :
    ∃ new, Accounted start total ends (new ++ log) (e.cycle stop s).state :=
  ⟨_, h.quiet (timeline_cycle e stop s).1 (clock_le_cycle e stop s) (cycle_cycles e stop s)
    (duration_cycle e stop s) (uncounted_cycle e stop s)⟩

/-- **A completed cycle moves the mark** to its end, and adds as much to the
duration. -/
theorem closed (h : Accounted start total ends log s) (e : Engine) (stop : Stop) :
    ∃ log', Accounted start total ((e.cycle stop s).state.clock :: ends) log'
      (e.closed stop (ends.headD start.clock) s) := by
  obtain ⟨new, hcycle⟩ := h.cycle e stop
  generalize hmark : ends.headD start.clock = mark
  have hstart : start.clock ≤ mark := hmark ▸ hcycle.start_le
  have hsum : (e.closed stop mark s).ledger.duration =
      total + ((e.cycle stop s).state.clock - start.clock) := by
    show (e.cycle stop s).state.ledger.duration + ((e.cycle stop s).state.clock - mark) =
      total + ((e.cycle stop s).state.clock - start.clock)
    rw [hcycle.duration, hmark, Nat.add_assoc, Nat.add_comm (mark - start.clock),
      Nat.sub_add_sub_cancel (hmark ▸ hcycle.mark_le) hstart]
  have hup : countAfter start.ledger.cycles (new ++ log) <
      (e.closed stop mark s).ledger.cycles := by
    rw [hcycle.count]
    exact Nat.lt_succ_self _
  have hends : Engine.completions start.ledger.cycles
      (⟨(e.closed stop mark s).clock, (e.closed stop mark s).ledger⟩ :: (new ++ log)) =
        (e.cycle stop s).state.clock :: ends := by
    rw [Engine.completions, if_pos hup, hcycle.completions]
    rfl
  refine ⟨⟨(e.closed stop mark s).clock, (e.closed stop mark s).ledger⟩ :: (new ++ log), ?_⟩
  constructor
  case timeline => exact congrArg _ hcycle.timeline
  case count => rfl
  case completions => exact hends
  case start_le => exact hcycle.start_le_clock
  case mark_le => exact Nat.le_refl _
  case since =>
    intro m hm
    rcases List.mem_cons.1 hm with rfl | hm
    · exact hcycle.start_le_clock
    · exact hcycle.since m hm
  case duration => exact hsum
  case told =>
    refine hcycle.told.cons ?_
    rw [Engine.runTime_eq, hends, List.headD_cons]
    exact hsum

/-- At every instant of a run a reader finds the time of the run up to this
instant, on top of what earlier runs have taken. -/
theorem ledgerDuring (h : Accounted start total ends log s) (htotal : start.ledger.duration = total)
    {t : Duration} {l : Ledger} (hl : ledgerDuring start s t = some l) :
    l.duration = total + runTime start (log.dropWhile fun m => decide (t ≤ m.instant)) := by
  have hfind : log.find? (fun m => decide (m.instant < t)) =
      (log.dropWhile fun m => decide (t ≤ m.instant)).head? := by
    rw [List.find?_eq_head?_dropWhile_not]
    simp only [← decide_not, Nat.not_lt]
  have hfound : (log.find? fun m => decide (m.instant < t)).elim start.ledger (·.ledger) = l := by
    have hlog : s.momentsSince start = log := momentsSince_of_append h.timeline
    unfold Engine.ledgerDuring at hl
    split at hl
    · rw [← hlog]
      exact Option.some.inj hl
    · exact nomatch hl
  rw [hfind] at hfound
  have hsuffix := List.dropWhile_suffix (l := log) fun m => decide (t ≤ m.instant)
  cases hearlier : log.dropWhile fun m => decide (t ≤ m.instant) with
  | nil =>
      rw [hearlier] at hfound
      rw [← hfound]
      exact htotal
  | cons m earlier =>
      rw [hearlier] at hfound hsuffix
      rw [← hfound]
      exact h.told m earlier hsuffix

end Accounted

variable {e : Engine} {stop : Stop} {waiting : List Arrival} {asked : List String}
  {start s f : State} {total : Duration} {log : List Moment}

/-- **Through all turns of a run the duration is accounted for**, and the cycles
that it completes end where it makes them known. -/
theorem Turns.accounted {turns completed : Nat} {mark : Duration} {known : List State}
    {ending : Ending} (h : Turns e stop turns mark completed s known f ending)
    {ends : List Duration} (hmark : ends.headD start.clock = mark)
    (hs : Accounted start total ends log s) :
    ∃ log', Accounted start total ((known.map (·.clock)).reverse ++ ends) log' f := by
  induction h generalizing log ends with
  | unfinished | rest => exact ⟨log, hs⟩
  | cut =>
      obtain ⟨new, hcycle⟩ := hs.cycle e stop
      exact ⟨_, hcycle⟩
  | enough =>
      obtain ⟨log', hclosed⟩ := hs.closed e stop
      exact ⟨log', hmark ▸ hclosed⟩
  | told =>
      obtain ⟨log', hclosed⟩ := hs.closed e stop
      exact ⟨log', (hmark ▸ hclosed).pause e stop⟩
  | next _ _ _ _ _ _ ih =>
      obtain ⟨log', hclosed⟩ := hs.closed e stop
      rw [hmark] at hclosed
      rw [List.map_cons, List.reverse_cons, List.append_assoc, List.singleton_append]
      exact ih rfl (hclosed.pause e stop)

/-- Marking the start changes the duration only where it sets nothing back. -/
theorem Reachable.duration_markStart (h : Reachable e waiting asked s) :
    (e.markStart s).ledger.duration = s.ledger.duration :=
  markStart_cases (fun hcycles => (h.duration_eq_zero hcycles).symm) fun _ => rfl

/-- A run begins with nothing of its own; if it sets the duration back, there was
nothing before it either. -/
theorem Reachable.accounted (h : Reachable e waiting asked s) :
    ∃ log, Accounted s s.ledger.duration [] log (e.markStart s) := by
  have hbegin : Accounted s s.ledger.duration [] [] s := by
    refine ⟨rfl, rfl, rfl, Nat.le_refl _, Nat.le_refl _, by simp, ?_, Told.nil⟩
    rw [List.headD_nil, Nat.sub_self]
    rfl
  obtain ⟨new, htimeline, hnew⟩ := timeline_markStart e s
  refine ⟨_, hbegin.quiet htimeline (Nat.le_of_eq (clock_markStart e s).symm)
    (cycles_markStart e s) h.duration_markStart fun m hm => ?_⟩
  rw [hnew m hm]
  exact ⟨Nat.le_refl _, cycles_markStart e s, h.duration_markStart⟩

section Retold

variable {patience : Nat} {run : RunEnd (List Snapshot)} {known : List State}
  {done cut : List CycleReport}

theorem Retold.accounted (h : Retold e waiting asked stop patience s run known done cut)
    (hs : Reachable e waiting asked s) :
    Accounted s s.ledger.duration (known.map (·.clock)).reverse (run.state.momentsSince s)
      run.state := by
  obtain ⟨begun, hbegun⟩ := hs.accounted
  obtain ⟨log, hlog⟩ := h.turns.accounted rfl hbegun
  rw [List.append_nil] at hlog
  rw [momentsSince_of_append hlog.timeline]
  exact hlog

/-- **The count goes up at the end of every complete pass**, and nowhere else. -/
theorem Retold.counted (h : Retold e waiting asked stop patience s run known done cut)
    (hs : Reachable e waiting asked s) : Counted e waiting asked stop s run.state done cut := by
  have hends := (h.accounted hs).completions
  constructor
  case passes => exact h.passes
  case isComplete => exact h.isComplete
  case isCut => exact h.closing.isCut
  case length_completions =>
    rw [hends, List.length_reverse, List.length_map, h.length_done]
  case cycles => exact h.cycles_eq hs
  case completed =>
    intro i r hr
    obtain ⟨hlt, hri⟩ := List.getElem?_eq_some_iff.1 hr
    have hseen : i < run.seen.length := h.length_seen ▸ hlt
    obtain ⟨c, hc, -, -, hpasses⟩ := h.known_spec hs (List.getElem?_eq_getElem hseen)
    obtain ⟨mark, b, hb, hgo, rfl⟩ := h.turns.closes hs.markStart c (List.mem_of_getElem? hc)
    rw [passes_closed, List.take_succ_eq_append_getElem hlt, hri, ← List.append_assoc] at hpasses
    obtain ⟨hbefore, hreport⟩ := List.append_inj' hpasses rfl
    refine ⟨b, ⟨hb, hgo, hbefore, List.singleton_inj.1 hreport⟩, ?_⟩
    rw [hends, List.reverse_reverse, List.getElem?_map, hc]
    rfl

end Retold

/-! ### From run to run -/

/-- Between runs the duration is the time of all the runs so far. -/
theorem Reachable.duration_visits (h : Reachable e waiting asked s) (visits : List Visit) :
    (visits.foldl e.visit s).ledger.duration = s.ledger.duration + e.totalTime s visits := by
  induction visits generalizing s with
  | nil => rfl
  | cons v rest ih =>
      obtain ⟨known, done, cut, hrun⟩ := (h.wait v.rest).retold v.stop v.patience
      have hvisit := hrun.accounted (h.wait v.rest)
      have hduration : (e.visit s v).ledger.duration = s.ledger.duration +
          runTime (s.wait v.rest) ((e.visit s v).momentsSince (s.wait v.rest)) :=
        hvisit.duration.trans (congrArg _ hvisit.runTime_eq.symm)
      rw [List.foldl_cons, ih (h.visit v), hduration, totalTime, Nat.add_assoc]

/-- At every moment before the first completed cycle no time is counted. -/
theorem Reachable.duration_eq_zero_of_mem (h : Reachable e waiting asked s) {m : Moment}
    (hm : m ∈ s.timeline) (hcycles : m.ledger.cycles = 0) : m.ledger.duration = 0 := by
  rcases h.moments m hm with ⟨b, hb, rfl⟩ | ⟨b, hb, stop, -, hm⟩
  · exact hb.duration_eq_zero hcycles
  · obtain ⟨-, hcount, hduration⟩ := uncounted_cycle e stop b m hm
    rw [hduration, hb.duration_eq_zero (hcount.symm.trans hcycles)]

theorem history_concat (e : Engine) (waiting : List Arrival) (asked : List String)
    (visits : List Visit) (v : Visit) :
    e.history waiting asked (visits ++ [v]) =
      (e.runCollecting v.stop v.patience ((e.history waiting asked visits).wait v.rest)).state := by
  simp only [history, List.foldl_append, List.foldl_cons, List.foldl_nil, visit]

/-- **The duration is the time of the runs so far**, each from its start to the end
of its last completed cycle: before and after every run of every history, at
every moment that its log holds, and at every instant for a reader.  In each of
the runs a cycle is completed where a pass made to the end is over, and a pass
that was cut short completes none.  As long as no cycle is completed the duration
is zero. -/
theorem duration_accounted (e : Engine) (waiting : List Arrival) (asked : List String)
    (visits : List Visit) (v : Visit) :
    let total := e.totalTime (e.start waiting asked) visits
    let start := (e.history waiting asked visits).wait v.rest
    let after := e.history waiting asked (visits ++ [v])
    start.snapshot.duration = total ∧
      after.timeline = after.momentsSince start ++ start.timeline ∧
      (∀ earlier u, earlier ++ [u] <+: visits ++ [v] →
        ∃ done cut, Counted e waiting asked u.stop ((e.history waiting asked earlier).wait u.rest)
          (e.history waiting asked (earlier ++ [u])) done cut) ∧
      (∀ m earlier, m :: earlier <:+ after.momentsSince start → start.clock ≤ m.instant ∧
        m.ledger.snapshot.duration = total + runTime start (m :: earlier)) ∧
      (∀ t l, ledgerDuring start after t = some l → l.snapshot.duration =
        total + runTime start
          ((after.momentsSince start).dropWhile fun m => decide (t ≤ m.instant))) ∧
      after.snapshot.duration = total + runTime start (after.momentsSince start) ∧
      ∀ m ∈ after.timeline, m.ledger.cycles = 0 → m.ledger.snapshot.duration = 0 := by
  intro total start after
  have hstart : Reachable e waiting asked start :=
    (history_reachable e waiting asked visits).wait v.rest
  have htotal : start.ledger.duration = total := by
    refine (Reachable.start.duration_visits visits).trans ?_
    exact Nat.zero_add _
  obtain ⟨known, done, cut, hrun⟩ := hstart.retold v.stop v.patience
  have hvisit := hrun.accounted hstart
  rw [htotal, ← history_concat e waiting asked visits v] at hvisit
  refine ⟨htotal, hvisit.timeline, fun earlier u _ => ?_,
    fun m earlier hsuffix => ⟨?_, hvisit.told m earlier hsuffix⟩,
    fun t l hl => hvisit.ledgerDuring htotal hl, ?_, fun m hm hcycles => ?_⟩
  · have hu := (history_reachable e waiting asked earlier).wait u.rest
    obtain ⟨known, done, cut, hrun⟩ := hu.retold u.stop u.patience
    rw [history_concat]
    exact ⟨done, cut, hrun.counted hu⟩
  · exact hvisit.since m (hsuffix.subset List.mem_cons_self)
  · rw [hvisit.runTime_eq]
    exact hvisit.duration
  · exact (history_reachable e waiting asked (visits ++ [v])).duration_eq_zero_of_mem hm hcycles

/-- Two silent hops, two cycles in every run. -/
def silentTrial : Engine :=
  { trial 2 (10 * Duration.millisecond) [] with
    config := { (trial 2 (10 * Duration.millisecond) []).config with count := 2 } }

/-- Two runs, half a minute apart.  The first takes two cycles and the interval
between them; the second is told to stop while it makes the first attempt of its
second pass.  The rest, the interval before that pass and the pass itself do not
count. -/
theorem duration_without_rest_and_cut_pass :
    let first : Visit := ⟨0, .never, 0⟩
    let second : Visit := ⟨30 * Duration.second, { attempt := some 7 }, 0⟩
    let start := (silentTrial.history [] [] [first]).wait second.rest
    let after := silentTrial.history [] [] [first, second]
    (∃ done cut, Counted silentTrial [] [] second.stop start after done cut) ∧
      after.passes.map (·.isComplete) = [true, true, true, false] ∧
      start.clock = 35040 * Duration.millisecond ∧
      completions start.ledger.cycles (after.momentsSince start) =
        [37060 * Duration.millisecond] ∧
      start.snapshot.duration = 5040 * Duration.millisecond ∧
      after.snapshot.duration = 7060 * Duration.millisecond ∧
      after.clock = 38070 * Duration.millisecond := by
  intro first second start after
  obtain ⟨hbefore, -, hcounted, -, -, hduration, -⟩ :=
    duration_accounted silentTrial [] [] [first] second
  have htotal : silentTrial.totalTime (silentTrial.start [] []) [first] =
      5040 * Duration.millisecond := by decide +kernel
  have hrun : runTime start (after.momentsSince start) = 2020 * Duration.millisecond := by
    decide +kernel
  obtain ⟨hpasses, hbegun, hends, hover⟩ :
      after.passes.map (·.isComplete) = [true, true, true, false] ∧
        start.clock = 35040 * Duration.millisecond ∧
        completions start.ledger.cycles (after.momentsSince start) =
          [37060 * Duration.millisecond] ∧
        after.clock = 38070 * Duration.millisecond := by decide +kernel
  have hsum : after.snapshot.duration = 7060 * Duration.millisecond := by
    calc after.snapshot.duration
      _ = silentTrial.totalTime (silentTrial.start [] []) [first] +
          runTime start (after.momentsSince start) := hduration
      _ = 5040 * Duration.millisecond + 2020 * Duration.millisecond := by rw [htotal, hrun]
      _ = 7060 * Duration.millisecond := by decide
  exact ⟨hcounted _ _ (List.prefix_refl _), hpasses, hbegun, hends, hbefore.trans htotal, hsum,
    hover⟩

end PathMeter.Engine
