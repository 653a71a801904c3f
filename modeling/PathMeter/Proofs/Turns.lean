import PathMeter.Proofs.Timeline

/-!
# The turns of a run

A run takes turns, and each turn ends in one of a few ways: the engine is at
rest, the cycle is cut short, the cycle is the last one, or a pause follows
and then the next turn.  `Turns` tells them apart and keeps the states in
which the run makes its results known.  Every run is such a sequence of turns,
and it shows those states, in order and each once, to whatever onlooker there
is (`run_turns`).

What is known of a run follows turn by turn.  The states made known are
reachable, count one cycle each, and hold a prefix of the passes of the run
(`Turns.known_spec`).  A run ends in the state it made known last, but for the
pause, or in a pass cut short from there (`Turns.passes_eq`).
-/

namespace PathMeter.Engine

/-- The state in which a completed cycle is made known, where the one before it
ended at `mark`. -/
def closed (e : Engine) (stop : Stop) (mark : Duration) (s : State) : State :=
  (e.cycle stop s).state.record
    ((e.cycle stop s).state.ledger.completeCycle ((e.cycle stop s).state.clock - mark))

/-- The turns of a run from a state: how many may be taken, where the last cycle
ended and how many are behind; then the states made known, the state at the end
and how the run ends. -/
inductive Turns (e : Engine) (stop : Stop) :
    Nat → Duration → Nat → State → List State → State → Ending → Prop where
  | unfinished {mark : Duration} {completed : Nat} {s : State} :
      Turns e stop 0 mark completed s [] s .unfinished
  | rest {turns : Nat} {mark : Duration} {completed : Nat} {s : State}
      (h : stop.raised s = true ∨ e.isEnough completed = true) :
      Turns e stop (turns + 1) mark completed s [] s .finished
  | cut {turns : Nat} {mark : Duration} {completed : Nat} {s : State}
      (hstop : stop.raised s = false) (hmore : e.isEnough completed = false)
      (hcut : (e.cycle stop s).isComplete = false) :
      Turns e stop (turns + 1) mark completed s [] (e.cycle stop s).state .finished
  | enough {turns : Nat} {mark : Duration} {completed : Nat} {s : State}
      (hstop : stop.raised s = false) (hmore : e.isEnough completed = false)
      (hcomplete : (e.cycle stop s).isComplete = true)
      (henough : e.isEnough (completed + 1) = true) :
      Turns e stop (turns + 1) mark completed s [e.closed stop mark s] (e.closed stop mark s)
        .finished
  | told {turns : Nat} {mark : Duration} {completed : Nat} {s : State}
      (hstop : stop.raised s = false) (hmore : e.isEnough completed = false)
      (hcomplete : (e.cycle stop s).isComplete = true)
      (hagain : e.isEnough (completed + 1) = false)
      (htold : (e.pause stop (e.closed stop mark s)).2 = true) :
      Turns e stop (turns + 1) mark completed s [e.closed stop mark s]
        (e.pause stop (e.closed stop mark s)).1 .finished
  | next {turns : Nat} {mark : Duration} {completed : Nat} {s f : State} {known : List State}
      {ending : Ending}
      (hstop : stop.raised s = false) (hmore : e.isEnough completed = false)
      (hcomplete : (e.cycle stop s).isComplete = true)
      (hagain : e.isEnough (completed + 1) = false)
      (hpause : (e.pause stop (e.closed stop mark s)).2 = false)
      (h : Turns e stop turns (e.closed stop mark s).clock (completed + 1)
        (e.pause stop (e.closed stop mark s)).1 known f ending) :
      Turns e stop (turns + 1) mark completed s (e.closed stop mark s :: known) f ending

/-! ### Every run takes turns -/

variable {e : Engine} {stop : Stop} {waiting : List Arrival} {asked : List String}
  {s f : State} {turns : Nat} {mark : Duration} {completed : Nat} {known : List State}
  {ending : Ending}

theorem cycles_succ {σ : Type} (e : Engine) (stop : Stop) (onCycle : σ → Snapshot → σ)
    (turns : Nat) (mark : Duration) (completed : Nat) (s : State) (seen : σ) :
    e.cycles stop onCycle (turns + 1) mark completed s seen =
      if stop.raised s || e.isEnough completed then ⟨s, seen, .finished⟩
      else if (e.cycle stop s).isComplete then
        if e.isEnough (completed + 1) then
          ⟨e.closed stop mark s, onCycle seen (e.closed stop mark s).snapshot, .finished⟩
        else if (e.pause stop (e.closed stop mark s)).2 then
          ⟨(e.pause stop (e.closed stop mark s)).1,
            onCycle seen (e.closed stop mark s).snapshot, .finished⟩
        else
          e.cycles stop onCycle turns (e.closed stop mark s).clock (completed + 1)
            (e.pause stop (e.closed stop mark s)).1
            (onCycle seen (e.closed stop mark s).snapshot)
      else ⟨(e.cycle stop s).state, seen, .finished⟩ :=
  rfl

/-- **A run takes turns**, and shows the states that it makes known to whatever
onlooker there is. -/
theorem cycles_turns (e : Engine) (stop : Stop) (turns : Nat) (mark : Duration) (completed : Nat)
    (s : State) :
    ∃ known f ending, Turns e stop turns mark completed s known f ending ∧
      ∀ {σ : Type} (onCycle : σ → Snapshot → σ) (seen : σ),
        e.cycles stop onCycle turns mark completed s seen =
          ⟨f, (known.map State.snapshot).foldl onCycle seen, ending⟩ := by
  induction turns generalizing mark completed s with
  | zero => exact ⟨[], s, .unfinished, .unfinished, fun _ _ => rfl⟩
  | succ turns ih =>
      simp only [cycles_succ]
      by_cases hrest : (stop.raised s || e.isEnough completed) = true
      · simp only [if_pos hrest]
        exact ⟨[], s, .finished, .rest (by simpa using hrest), fun _ _ => rfl⟩
      obtain ⟨hstop, hmore⟩ := Bool.or_eq_false_iff.1 (Bool.eq_false_iff.2 hrest)
      simp only [if_neg hrest]
      by_cases hcomplete : (e.cycle stop s).isComplete = true
      · simp only [if_pos hcomplete]
        by_cases henough : e.isEnough (completed + 1) = true
        · simp only [if_pos henough]
          exact ⟨_, _, .finished, .enough hstop hmore hcomplete henough, fun _ _ => rfl⟩
        have hagain := Bool.eq_false_iff.2 henough
        simp only [if_neg henough]
        by_cases htold : (e.pause stop (e.closed stop mark s)).2 = true
        · simp only [if_pos htold]
          exact ⟨_, _, .finished, .told hstop hmore hcomplete hagain htold, fun _ _ => rfl⟩
        · obtain ⟨known, f, ending, h, hrun⟩ := ih (e.closed stop mark s).clock (completed + 1)
            (e.pause stop (e.closed stop mark s)).1
          simp only [if_neg htold]
          exact ⟨_, f, ending, .next hstop hmore hcomplete hagain (Bool.eq_false_iff.2 htold) h,
            fun onCycle seen => hrun onCycle _⟩
      · simp only [if_neg hcomplete]
        exact ⟨[], _, .finished, .cut hstop hmore (Bool.eq_false_iff.2 hcomplete), fun _ _ => rfl⟩

theorem foldl_collect (snapshots seen : List Snapshot) :
    snapshots.foldl (fun seen snapshot => seen ++ [snapshot]) seen = seen ++ snapshots := by
  induction snapshots generalizing seen with
  | nil => exact (List.append_nil seen).symm
  | cons snapshot rest ih =>
      rw [List.foldl_cons, ih, List.append_assoc]
      rfl

/-- The snapshots of a run are those of the states it makes known, and any
onlooker is shown the same ones. -/
theorem run_turns (e : Engine) (stop : Stop) (patience : Nat) (s : State) :
    ∃ known, Turns e stop (e.turns patience) s.clock 0 (e.markStart s) known
        (e.runCollecting stop patience s).state (e.runCollecting stop patience s).ending ∧
      (e.runCollecting stop patience s).seen = known.map State.snapshot ∧
      ∀ {σ : Type} (onCycle : σ → Snapshot → σ) (seen : σ),
        e.run stop patience onCycle s seen =
          ⟨(e.runCollecting stop patience s).state,
            (e.runCollecting stop patience s).seen.foldl onCycle seen,
            (e.runCollecting stop patience s).ending⟩ := by
  obtain ⟨known, f, ending, h, hrun⟩ :=
    cycles_turns e stop (e.turns patience) s.clock 0 (e.markStart s)
  have hcollect : e.runCollecting stop patience s = ⟨f, known.map State.snapshot, ending⟩ := by
    refine (hrun _ []).trans ?_
    rw [foldl_collect, List.nil_append]
  rw [hcollect]
  exact ⟨known, h, rfl, hrun⟩

/-! ### Being told to stop -/

/-- Whether the engine has been told to stop by an instant, with so many
attempts and cycles behind. -/
def Stop.raisedAt (stop : Stop) (instant : Duration) (attempts cycles : Nat) : Bool :=
  stop.instant.any (fun t => decide (t ≤ instant)) ||
    stop.attempt.any (fun n => decide (n ≤ attempts)) ||
    stop.cycle.any (fun n => decide (n ≤ cycles))

theorem Stop.raised_eq (stop : Stop) (s : State) :
    stop.raised s = stop.raisedAt s.clock s.attempts.length s.ledger.cycles :=
  rfl

theorem Stop.raisedAt_iff {stop : Stop} {instant : Duration} {attempts cycles : Nat} :
    stop.raisedAt instant attempts cycles = true ↔
      (∃ t, stop.instant = some t ∧ t ≤ instant) ∨ (∃ n, stop.attempt = some n ∧ n ≤ attempts) ∨
        ∃ n, stop.cycle = some n ∧ n ≤ cycles := by
  simp only [raisedAt, Bool.or_eq_true, Option.any_eq_true, decide_eq_true_eq, or_assoc]

/-- Who has been told once stays told. -/
theorem Stop.raisedAt_mono {stop : Stop} {t t' : Duration} {attempts attempts' cycles cycles' : Nat}
    (ht : t ≤ t') (hattempts : attempts ≤ attempts') (hcycles : cycles ≤ cycles')
    (h : stop.raisedAt t attempts cycles = true) :
    stop.raisedAt t' attempts' cycles' = true := by
  rw [raisedAt_iff] at h ⊢
  rcases h with ⟨c, hc, hle⟩ | ⟨n, hn, hle⟩ | ⟨n, hn, hle⟩
  · exact Or.inl ⟨c, hc, Nat.le_trans hle ht⟩
  · exact Or.inr (Or.inl ⟨n, hn, Nat.le_trans hle hattempts⟩)
  · exact Or.inr (Or.inr ⟨n, hn, Nat.le_trans hle hcycles⟩)

/-- A send pass is cut short only where the engine has been told to stop. -/
theorem raised_of_sendPass_cut {cycle : Nat} {hops : List Nat} {awaited : List Awaited}
    (h : (e.sendPass stop cycle hops s awaited).isComplete = false) :
    stop.raised (e.sendPass stop cycle hops s awaited).state = true := by
  induction hops generalizing s awaited with
  | nil => exact absurd h.symm Bool.false_ne_true
  | cons hop rest ih =>
      unfold sendPass at h ⊢
      split
      · assumption
      · next hgo =>
        rw [if_neg hgo] at h
        exact ih h

theorem isComplete_cycle (e : Engine) (stop : Stop) (s : State) :
    (e.cycle stop s).isComplete = (e.passOf stop s).isComplete := by
  by_cases h : (e.passOf stop s).isComplete = true
  · rw [cycle_of_complete h, h]
  · rw [cycle_of_cut h, Bool.eq_false_iff.2 h]

theorem not_complete_passOf (h : (e.cycle stop s).isComplete = false) :
    ¬ (e.passOf stop s).isComplete = true := by
  rw [isComplete_cycle] at h
  exact Bool.eq_false_iff.1 h

theorem raised_of_cycle_cut (h : (e.cycle stop s).isComplete = false) :
    stop.raised (e.cycle stop s).state = true := by
  have hcut := not_complete_passOf h
  rw [cycle_of_cut hcut]
  exact raised_of_sendPass_cut (Bool.eq_false_iff.2 hcut)

/-! ### Pauses -/

theorem wait_wait (s : State) (d d' : Duration) : (s.wait d).wait d' = s.wait (d + d') := by
  rw [State.wait, State.wait, State.wait, Nat.add_assoc]

theorem exists_pause_eq_wait (e : Engine) (stop : Stop) (s : State) :
    ∃ d, (e.pause stop s).1 = s.wait d := by
  unfold pause
  split
  · exact ⟨0, rfl⟩
  · split
    · split
      · exact ⟨_, waitUntil_eq_wait _ _⟩
      · exact ⟨_, rfl⟩
    · exact ⟨_, rfl⟩

/-- After an undisturbed pause the engine has still not been told to stop. -/
theorem pause_undisturbed (h : (e.pause stop s).2 = false) :
    (e.pause stop s).1 = s.wait e.config.interval ∧ stop.raised s = false ∧
      stop.raised (s.wait e.config.interval) = false := by
  unfold pause at h ⊢
  split at h
  · exact absurd h.symm Bool.false_ne_true
  · next hgo =>
    have hgo := Bool.eq_false_iff.2 hgo
    rw [if_neg (Bool.eq_false_iff.1 hgo)]
    have hlater (hinstant : ∀ t, stop.instant = some t → ¬ t ≤ s.clock + e.config.interval) :
        stop.raised (s.wait e.config.interval) = false := by
      rw [Bool.eq_false_iff, Stop.raised_eq] at hgo ⊢
      intro hraised
      rcases Stop.raisedAt_iff.1 hraised with ⟨t, ht, hle⟩ | hother
      · exact hinstant t ht hle
      · exact hgo (Stop.raisedAt_iff.2 (Or.inr hother))
    split at h
    · next t ht =>
      split at h
      · exact absurd h.symm Bool.false_ne_true
      · next hlt =>
        rw [if_neg hlt]
        refine ⟨rfl, hgo, hlater fun t' ht' => ?_⟩
        obtain rfl := Option.some.inj (ht.symm.trans ht')
        exact hlt
    · next hnone =>
      exact ⟨rfl, hgo, hlater fun t ht => by simp [hnone] at ht⟩

/-- A pause breaks off because the engine has been told to stop, before it or
at some instant in it. -/
theorem pause_told (h : (e.pause stop s).2 = true) :
    stop.raised s = true ∧ (e.pause stop s).1 = s ∨
      stop.raised s = false ∧
        ∃ t, stop.instant = some t ∧ (e.pause stop s).1 = s.waitUntil t := by
  unfold pause at h ⊢
  split at h
  · next hraised =>
    rw [if_pos hraised]
    exact Or.inl ⟨hraised, rfl⟩
  · next hgo =>
    rw [if_neg hgo]
    split at h
    · next t ht =>
      split at h
      · next hle =>
        rw [if_pos hle]
        exact Or.inr ⟨Bool.eq_false_iff.2 hgo, t, ht, rfl⟩
      · exact absurd h Bool.false_ne_true
    · exact absurd h Bool.false_ne_true

theorem raised_of_pause_told (h : (e.pause stop s).2 = true) :
    stop.raised (e.pause stop s).1 = true := by
  rcases pause_told h with ⟨hraised, heq⟩ | ⟨-, t, ht, heq⟩
  · rw [heq]
    exact hraised
  · rw [heq, Stop.raised_eq]
    exact Stop.raisedAt_iff.2 (Or.inl ⟨t, ht, Nat.le_max_right _ _⟩)

/-! ### What the turns lead to -/

theorem passes_closed (e : Engine) (stop : Stop) (mark : Duration) (s : State) :
    (e.closed stop mark s).passes = s.passes ++ [e.cycleReport stop s] :=
  cycle_passes e stop s

theorem cycles_closed (e : Engine) (stop : Stop) (mark : Duration) (s : State) :
    (e.closed stop mark s).ledger.cycles = s.ledger.cycles + 1 :=
  congrArg (· + 1) (cycle_cycles e stop s)

theorem prefix_closed (e : Engine) (stop : Stop) (mark : Duration) (s : State) :
    s.passes <+: (e.closed stop mark s).passes := by
  rw [passes_closed]
  exact List.prefix_append _ _

theorem passes_pause (e : Engine) (stop : Stop) (s : State) :
    (e.pause stop s).1.passes = s.passes := by
  obtain ⟨d, hd⟩ := exists_pause_eq_wait e stop s
  rw [hd]
  rfl

theorem Turns.passes_extend (h : Turns e stop turns mark completed s known f ending) :
    s.passes <+: f.passes := by
  induction h with
  | unfinished | rest => exact List.prefix_refl _
  | cut =>
      rw [cycle_passes]
      exact List.prefix_append _ _
  | enough => exact prefix_closed ..
  | told =>
      rw [passes_pause]
      exact prefix_closed ..
  | next _ _ _ _ _ _ ih =>
      rw [passes_pause] at ih
      exact (prefix_closed ..).trans ih

/-- What is true of the state that a run makes known as number `i`. -/
structure Known (e : Engine) (waiting : List Arrival) (asked : List String) (stop : Stop)
    (s f : State) (count i : Nat) (c : State) : Prop where
  reachable : Reachable e waiting asked c
  cycles : c.ledger.cycles = s.ledger.cycles + (i + 1)
  passes : c.passes <+: f.passes
  length_passes : c.passes.length = s.passes.length + (i + 1)
  /-- If it is not the last one, the engine has not been told to stop by then. -/
  undisturbed : i + 1 < count → stop.raised c = false

/-- The passes by then: those before the run, and the first ones of it. -/
theorem Known.passes_eq {count i : Nat} {c : State} {done cut : List CycleReport}
    (h : Known e waiting asked stop s f count i c) (hpasses : f.passes = s.passes ++ done ++ cut)
    (hi : i < done.length) : c.passes = s.passes ++ done.take (i + 1) := by
  have htake := List.prefix_iff_eq_take.1 h.passes
  rw [h.length_passes, hpasses, List.append_assoc, List.take_length_add_append,
    List.take_append_of_le_length hi] at htake
  exact htake

theorem Reachable.known_closed (hs : Reachable e waiting asked s) (hstop : stop.raised s = false)
    (hcomplete : (e.cycle stop s).isComplete = true) {count : Nat}
    (hbegin : (e.closed stop mark s).passes <+: f.passes)
    (hundisturbed : 1 < count → stop.raised (e.closed stop mark s) = false) :
    Known e waiting asked stop s f count 0 (e.closed stop mark s) where
  reachable := hs.complete stop mark hstop hcomplete
  cycles := cycles_closed e stop mark s
  passes := hbegin
  length_passes := by rw [passes_closed, List.length_append, List.length_singleton]
  undisturbed := hundisturbed

theorem eq_of_getElem?_singleton {α : Type} {x y : α} {i : Nat}
    (h : [x][i]? = some y) : i = 0 ∧ x = y := by
  cases i with
  | zero => exact ⟨rfl, Option.some.inj h⟩
  | succ i => simp at h

/-- **The states that a run makes known** count one cycle each. -/
theorem Turns.known_spec (h : Turns e stop turns mark completed s known f ending)
    (hs : Reachable e waiting asked s) {i : Nat} {c : State} (hi : known[i]? = some c) :
    Known e waiting asked stop s f known.length i c := by
  induction h generalizing i with
  | unfinished | rest | cut => simp at hi
  | enough hstop _ hcomplete _ =>
      obtain ⟨rfl, rfl⟩ := eq_of_getElem?_singleton hi
      exact hs.known_closed hstop hcomplete (List.prefix_refl _)
        fun h => absurd h (Nat.lt_irrefl 1)
  | told hstop _ hcomplete _ _ =>
      obtain ⟨rfl, rfl⟩ := eq_of_getElem?_singleton hi
      exact hs.known_closed hstop hcomplete (passes_pause .. ▸ List.prefix_refl _)
        fun h => absurd h (Nat.lt_irrefl 1)
  | @next turns mark completed s f known ending hstop _ hcomplete _ hpause h ih =>
      have hclosed := hs.complete stop mark hstop hcomplete
      obtain ⟨hwait, hgo, -⟩ := pause_undisturbed hpause
      cases i with
      | zero =>
          obtain rfl := Option.some.inj hi
          exact hs.known_closed hstop hcomplete (passes_pause e stop _ ▸ h.passes_extend)
            (fun _ => hgo)
      | succ i =>
          have hrest := ih (hclosed.pause stop) hi
          rw [hwait] at hrest
          refine ⟨hrest.reachable, ?_, hrest.passes, ?_, ?_⟩
          · refine hrest.cycles.trans ?_
            show (e.closed stop mark s).ledger.cycles + (i + 1) = _
            rw [cycles_closed]
            omega
          · refine hrest.length_passes.trans ?_
            show (e.closed stop mark s).passes.length + (i + 1) = _
            rw [passes_closed, List.length_append, List.length_singleton]
            omega
          · intro hlt
            exact hrest.undisturbed (Nat.lt_of_succ_lt_succ hlt)

/-- A state made known is that at the end of a completed cycle, begun where the
engine had not been told to stop. -/
theorem Turns.closes (h : Turns e stop turns mark completed s known f ending)
    (hs : Reachable e waiting asked s) : ∀ c ∈ known,
      ∃ mark b, Reachable e waiting asked b ∧ stop.raised b = false ∧ e.closed stop mark b = c := by
  induction h with
  | unfinished | rest | cut => simp
  | enough hstop | told hstop =>
      intro c hc
      exact ⟨_, _, hs, hstop, (List.mem_singleton.1 hc).symm⟩
  | next hstop _ hcomplete _ _ _ ih =>
      intro c hc
      rcases List.mem_cons.1 hc with rfl | hc
      · exact ⟨_, _, hs, hstop, rfl⟩
      · exact ih ((hs.complete stop _ hstop hcomplete).pause stop) c hc

/-- The snapshot shown last is that of the state made known last. -/
theorem getLastD_snapshot (known : List State) (s : State) :
    (known.map State.snapshot).getLastD s.snapshot = (known.getLastD s).snapshot := by
  rcases List.eq_nil_or_concat known with hnil | ⟨rest, c, hconcat⟩
  · rw [hnil]
    rfl
  · rw [hconcat, List.concat_eq_append, List.map_append, List.map_singleton,
      List.getLastD_concat, List.getLastD_concat]

/-- What is true of the state made known last, or of the first one of a run that
made none known. -/
theorem Turns.last_spec (h : Turns e stop turns mark completed s known f ending)
    (hs : Reachable e waiting asked s) :
    Reachable e waiting asked (known.getLastD s) ∧
      (known.getLastD s).ledger.cycles = s.ledger.cycles + known.length ∧
      s.passes <+: (known.getLastD s).passes ∧
      (known.getLastD s).passes.length = s.passes.length + known.length := by
  rcases List.eq_nil_or_concat known with hnil | ⟨rest, c, hconcat⟩
  · rw [hnil]
    exact ⟨hs, rfl, List.prefix_refl _, rfl⟩
  · rw [List.concat_eq_append] at hconcat
    have hlast : known[rest.length]? = some c := by simp [hconcat]
    have hlength : known.length = rest.length + 1 := by simp [hconcat]
    have hknown := h.known_spec hs hlast
    have hpasses : s.passes <+: c.passes :=
      List.prefix_of_prefix_length_le h.passes_extend hknown.passes
        (hknown.length_passes ▸ Nat.le_add_right _ _)
    have hgetLast : known.getLastD s = c := by rw [hconcat, List.getLastD_concat]
    rw [hgetLast, hlength]
    exact ⟨hknown.reachable, hknown.cycles, hpasses, hknown.length_passes⟩

/-- How a run may end after the state made known last: there, but for a pause, or
with a pass that was cut short. -/
inductive Closing (e : Engine) (stop : Stop) (last : State) : List CycleReport → State → Prop where
  | paused (d : Duration) : Closing e stop last [] (last.wait d)
  | cut (d : Duration) (hstop : stop.raised (last.wait d) = false)
      (hcut : (e.cycle stop (last.wait d)).isComplete = false) :
      Closing e stop last [e.cycleReport stop (last.wait d)] (e.cycle stop (last.wait d)).state

theorem Closing.of_wait {last : State} {d : Duration} {cut : List CycleReport}
    (h : Closing e stop (last.wait d) cut f) : Closing e stop last cut f := by
  cases h with
  | paused d' =>
      rw [wait_wait]
      exact .paused _
  | cut d' hstop hcut =>
      rw [wait_wait] at hstop hcut ⊢
      exact .cut _ hstop hcut

theorem Closing.passes {last : State} {cut : List CycleReport} (h : Closing e stop last cut f) :
    f.passes = last.passes ++ cut := by
  cases h with
  | paused => exact (List.append_nil _).symm
  | cut => exact cycle_passes ..

theorem Turns.closing (h : Turns e stop turns mark completed s known f ending) :
    ∃ cut, Closing e stop (known.getLastD s) cut f := by
  induction h with
  | unfinished | rest | enough => exact ⟨[], .paused 0⟩
  | cut hstop _ hcut => exact ⟨_, .cut 0 hstop hcut⟩
  | told =>
      obtain ⟨d, hd⟩ := exists_pause_eq_wait e stop (e.closed stop _ _)
      rw [hd]
      exact ⟨[], .paused d⟩
  | @next turns mark completed s f known ending _ _ _ _ hpause h ih =>
      obtain ⟨hwait, -, -⟩ := pause_undisturbed hpause
      obtain ⟨cut, hclosing⟩ := ih
      rw [hwait] at hclosing
      refine ⟨cut, ?_⟩
      rw [List.getLastD_cons]
      cases known with
      | nil => exact hclosing.of_wait
      | cons c rest => simpa only [List.getLastD_cons] using hclosing

/-- **The passes of a run**: a complete one for each state made known, and perhaps
one that was cut short. -/
theorem Turns.passes_eq (h : Turns e stop turns mark completed s known f ending)
    (hs : Reachable e waiting asked s) :
    ∃ done cut, (known.getLastD s).passes = s.passes ++ done ∧ done.length = known.length ∧
      (∀ r ∈ done, r.isComplete = true) ∧ Closing e stop (known.getLastD s) cut f := by
  obtain ⟨hlast, hcycles, ⟨done, hdone⟩, hlength⟩ := h.last_spec hs
  obtain ⟨cut, hclosing⟩ := h.closing
  have hdoneLength : done.length = known.length := by
    rw [← hdone, List.length_append] at hlength
    omega
  refine ⟨done, cut, hdone.symm, hdoneLength, ?_, hclosing⟩
  have hcount := hlast.numbered.1
  rw [← hdone, List.countP_append, hcycles, hs.numbered.1] at hcount
  have hall : done.countP (·.isComplete) = done.length := by omega
  exact List.countP_eq_length.1 hall

/-- A run that was asked for a number of cycles finishes, and completes them
all unless it is told to stop. -/
theorem Turns.counted (h : Turns e stop turns mark completed s known f ending)
    (hbounded : e.config.isUnbounded = false) (hturns : turns + completed = e.config.count)
    (hpos : 0 < turns) :
    ending = .finished ∧ completed + known.length ≤ e.config.count ∧
      (stop.raised f = false → completed + known.length = e.config.count) := by
  have henough : ∀ k, e.isEnough k = true ↔ e.config.count ≤ k := by
    intro k
    simp [isEnough, hbounded]
  have hagain : ∀ k, e.isEnough k = false ↔ k < e.config.count := by
    intro k
    rw [Bool.eq_false_iff, Ne, henough, Nat.not_le]
  induction h with
  | unfinished => exact absurd hpos (Nat.lt_irrefl 0)
  | rest h =>
      refine ⟨rfl, by simp; omega, fun hraised => ?_⟩
      rcases h with hstop | hrest
      · exact absurd (hraised.symm.trans hstop) Bool.false_ne_true
      · have hle := (henough _).1 hrest
        omega
  | cut _ _ hcut =>
      refine ⟨rfl, by simp; omega, fun hraised => ?_⟩
      exact absurd (hraised.symm.trans (raised_of_cycle_cut hcut)) Bool.false_ne_true
  | enough _ _ _ hrest =>
      have hle := (henough _).1 hrest
      exact ⟨rfl, by simp; omega, fun _ => by simp; omega⟩
  | told _ _ _ _ htold =>
      refine ⟨rfl, by simp; omega, fun hraised => ?_⟩
      exact absurd (hraised.symm.trans (raised_of_pause_told htold)) Bool.false_ne_true
  | next _ _ _ hmore _ _ ih =>
      have hlt := (hagain _).1 hmore
      obtain ⟨hending, hle, hall⟩ := ih (by omega) (by omega)
      rw [List.length_cons]
      refine ⟨hending, by omega, fun hraised => ?_⟩
      have hlength := hall hraised
      omega

/-- A run without a count ends only where it is told to. -/
theorem Turns.raised_of_unbounded (h : Turns e stop turns mark completed s known f ending)
    (hunbounded : e.config.isUnbounded = true) (hending : ending = .finished) :
    stop.raised f = true := by
  have hmore : ∀ k, ¬ e.isEnough k = true := by
    intro k
    simp [isEnough, hunbounded]
  induction h with
  | unfinished => cases hending
  | rest h => exact h.resolve_right (hmore _)
  | cut _ _ hcut => exact raised_of_cycle_cut hcut
  | enough _ _ _ henough => exact absurd henough (hmore _)
  | told _ _ _ _ htold => exact raised_of_pause_told htold
  | next _ _ _ _ _ _ ih => exact ih hending

/-- A run retold: the states it makes known, the passes it makes to the end, and
the one that is cut short, if any. -/
structure Retold (e : Engine) (waiting : List Arrival) (asked : List String) (stop : Stop)
    (patience : Nat) (s : State) (run : RunEnd (List Snapshot)) (known : List State)
    (done cut : List CycleReport) : Prop where
  turns : Turns e stop (e.turns patience) s.clock 0 (e.markStart s) known run.state run.ending
  seen : run.seen = known.map State.snapshot
  reachable : Reachable e waiting asked run.state
  reachableLast : Reachable e waiting asked (known.getLastD (e.markStart s))
  passesLast : (known.getLastD (e.markStart s)).passes = s.passes ++ done
  closing : Closing e stop (known.getLastD (e.markStart s)) cut run.state
  length_done : done.length = known.length
  isComplete : ∀ r ∈ done, r.isComplete = true

theorem Reachable.retold (h : Reachable e waiting asked s) (stop : Stop) (patience : Nat) :
    ∃ known done cut, Retold e waiting asked stop patience s (e.runCollecting stop patience s)
      known done cut := by
  obtain ⟨known, hturns, hseen, -⟩ := run_turns e stop patience s
  obtain ⟨done, cut, hlast, hdone, hcomplete, hclosing⟩ := hturns.passes_eq h.markStart
  rw [passes_markStart] at hlast
  have hend : Reachable e waiting asked (e.runCollecting stop patience s).state :=
    h.run stop patience (fun seen snapshot => seen ++ [snapshot]) []
  exact ⟨known, done, cut, hturns, hseen, hend, (hturns.last_spec h.markStart).1, hlast,
    hclosing, hdone, hcomplete⟩

section Retold

variable {patience : Nat} {run : RunEnd (List Snapshot)} {done cut : List CycleReport}

theorem Retold.passes (h : Retold e waiting asked stop patience s run known done cut) :
    run.state.passes = s.passes ++ done ++ cut := by
  rw [h.closing.passes, h.passesLast]

theorem Retold.length_seen (h : Retold e waiting asked stop patience s run known done cut) :
    run.seen.length = done.length := by
  rw [h.seen, List.length_map, h.length_done]

/-- A snapshot that is shown is that of a state made known, with the passes up to
it behind. -/
theorem Retold.known_spec (h : Retold e waiting asked stop patience s run known done cut)
    (hs : Reachable e waiting asked s) {i : Nat} {snapshot : Snapshot}
    (hi : run.seen[i]? = some snapshot) :
    ∃ c, known[i]? = some c ∧ c.snapshot = snapshot ∧
      Known e waiting asked stop (e.markStart s) run.state known.length i c ∧
      c.passes = s.passes ++ done.take (i + 1) := by
  rw [h.seen, List.getElem?_map] at hi
  obtain ⟨c, hc, rfl⟩ := Option.map_eq_some_iff.1 hi
  have hlt : i < done.length := h.length_done ▸ (List.getElem?_eq_some_iff.1 hc).1
  have hknown := h.turns.known_spec hs.markStart hc
  have hpasses : run.state.passes = (e.markStart s).passes ++ done ++ cut := by
    rw [h.passes, passes_markStart]
  have hby := hknown.passes_eq hpasses hlt
  rw [passes_markStart] at hby
  exact ⟨c, hc, rfl, hknown, hby⟩

end Retold

end PathMeter.Engine
