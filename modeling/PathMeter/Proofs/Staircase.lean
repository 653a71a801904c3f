import PathMeter.Proofs.Schedule

/-!
# Sends go down in steps

Every pass gives the positions their turns in order from the first one on, so
a hop has been sent to in no more passes than the hop before it.  Between two
cycles the sends of a hop are the passes that came as far as it
(`Reachable.sent_eq`); within a cycle the hops up to some position have one
more (`Advanced`).  Either way the sends go down from hop to hop, none falls
short of the completed cycles, and the first exceeds them by the passes cut
short and the one in progress (`Staircase`).
-/

namespace PathMeter.Ledger

/-- Sends that go down from hop to hop, to no less than the completed cycles, and
start with so many more at most. -/
structure Staircase (spare : Nat) (l : Ledger) : Prop where
  /-- No hop has more sends than the one before it. -/
  descends : ∀ n g g', l.hop? n = some g → l.hop? (n + 1) = some g' → g'.sent ≤ g.sent
  cycles_le : ∀ g ∈ l.hops, l.cycles ≤ g.sent
  first_le : ∀ g, l.hop? 1 = some g → g.sent ≤ l.cycles + spare

theorem Staircase.mono {few many : Nat} {l : Ledger} (h : Staircase few l) (hle : few ≤ many) :
    Staircase many l :=
  ⟨h.descends, h.cycles_le, fun g hg => Nat.le_trans (h.first_le g hg) (Nat.add_le_add_left hle _)⟩

/-- A ledger in which the hops up to a position have one send more than in an
earlier one. -/
structure Advanced (base : Ledger) (last : Nat) (l : Ledger) : Prop where
  cycles : l.cycles = base.cycles
  sent : ∀ n, (l.hop? n).map (·.sent) =
    (base.hop? n).map fun g => g.sent + if n ≤ last then 1 else 0

section Advanced

variable {base l l' : Ledger} {last : Nat}

theorem Advanced.refl (l : Ledger) : Advanced l 0 l := by
  refine ⟨rfl, fun n => ?_⟩
  cases n with
  | zero => rfl
  | succ n => simp

/-- An entry that leaves the sends alone. -/
theorem Advanced.entry (h : Advanced base last l) (hcycles : l'.cycles = l.cycles)
    (hsent : ∀ n, (l'.hop? n).map (·.sent) = (l.hop? n).map (·.sent)) :
    Advanced base last l' :=
  ⟨hcycles.trans h.cycles, fun n => (hsent n).trans (h.sent n)⟩

/-- The turn of the next position. -/
theorem Advanced.recordSent (h : Advanced base last l) :
    Advanced base (last + 1) (l.updateHop (last + 1) Hop.recordSent) := by
  refine ⟨(cycles_updateHop ..).trans h.cycles, fun n => ?_⟩
  have hn := h.sent n
  by_cases heq : n = last + 1
  · subst heq
    rw [if_neg (Nat.not_succ_le_self last)] at hn
    rw [hop?_updateHop_self, if_pos (Nat.le_refl _), Option.map_map]
    have hmore := congrArg (Option.map (· + 1)) hn
    simpa [Hop.recordSent, Function.comp_def] using hmore
  · have hsame : n ≤ last + 1 ↔ n ≤ last := by omega
    rw [hop?_updateHop_of_ne _ heq, hn]
    simp only [hsame]

theorem Advanced.exists_base (h : Advanced base last l) {n : Nat} {g : Hop}
    (hg : l.hop? n = some g) :
    ∃ b, base.hop? n = some b ∧ g.sent = b.sent + if n ≤ last then 1 else 0 := by
  have hn := h.sent n
  rw [hg] at hn
  obtain ⟨b, hb, hsent⟩ := Option.map_eq_some_iff.1 hn.symm
  exact ⟨b, hb, hsent.symm⟩

/-- One send more for each of the first hops keeps the staircase. -/
theorem Advanced.staircase (h : Advanced base last l) {spare : Nat}
    (hbase : Staircase spare base) : Staircase (spare + 1) l := by
  constructor
  case descends =>
    intro n g g' hg hg'
    obtain ⟨b, hb, hsent⟩ := h.exists_base hg
    obtain ⟨b', hb', hsent'⟩ := h.exists_base hg'
    have hdown := hbase.descends n b b' hb hb'
    -- a hop has had its turn if the one behind it has
    have hturn : (if n + 1 ≤ last then 1 else 0) ≤ if n ≤ last then 1 else 0 := by
      split <;> split <;> omega
    omega
  case cycles_le =>
    intro g hg
    obtain ⟨n, hn⟩ := exists_hop?_of_mem hg
    obtain ⟨b, hb, hsent⟩ := h.exists_base hn
    have hle := hbase.cycles_le b (mem_of_hop? hb)
    rw [h.cycles, hsent]
    exact Nat.le_add_right_of_le hle
  case first_le =>
    intro g hg
    obtain ⟨b, hb, hsent⟩ := h.exists_base hg
    have hle := hbase.first_le b hb
    have hone : (if 1 ≤ last then 1 else 0) ≤ 1 := by
      split <;> omega
    rw [h.cycles, hsent, ← Nat.add_assoc]
    exact Nat.add_le_add hle hone

end Advanced

end PathMeter.Ledger

namespace PathMeter.Engine

variable {e : Engine} {stop : Stop} {waiting : List Arrival} {asked : List String} {s s' f : State}

/-! ### Within a cycle -/

/-- A state within a cycle that began in another one, where the positions up to
`last` have had their turn, and fewer at every moment in between. -/
structure Ascent (s : State) (last : Nat) (s' : State) : Prop where
  now : s.ledger.Advanced last s'.ledger
  timeline : ∃ new, s'.timeline = new ++ s.timeline ∧
    ∀ m ∈ new, ∃ last, s.ledger.Advanced last m.ledger

namespace Ascent

variable {last : Nat}

theorem refl (s : State) : Ascent s 0 s :=
  ⟨.refl _, [], rfl, by simp⟩

theorem record (h : Ascent s last s') {later : Nat} {l : Ledger}
    (hl : s.ledger.Advanced later l) : Ascent s later (s'.record l) := by
  obtain ⟨new, htimeline, hnew⟩ := h.timeline
  refine ⟨hl, ⟨s'.clock, l⟩ :: new, congrArg _ htimeline, ?_⟩
  intro m hm
  rcases List.mem_cons.1 hm with rfl | hm
  · exact ⟨later, hl⟩
  · exact hnew m hm

theorem updateHop (h : Ascent s last s') (n : Nat) {f : Hop → Hop}
    (hf : ∀ g, (f g).sent = g.sent) :
    Ascent s last (s'.record (s'.ledger.updateHop n f)) :=
  h.record (h.now.entry (Ledger.cycles_updateHop ..) fun _ => Ledger.map_hop?_updateHop hf ..)

theorem recordReply (h : Ascent s last s') (n : Nat) (ip : IPv4) (d : Duration) :
    Ascent s last (s'.record (s'.ledger.updateHop n fun g => g.recordReply ip d)) :=
  h.updateHop n fun g => g.sent_recordReply ip d

theorem enterName (h : Ascent s last s') (l : Lookup) : Ascent s last (enterName l s') := by
  refine enterName_cases (fun _ => h) fun name _ => h.updateHop _ fun g => ?_
  split <;> rfl

end Ascent

/-- A send pass climbs position by position, as far as it comes. -/
theorem sendPass_ascent {last : Nat} (h : Ascent s last s') (e : Engine) (stop : Stop)
    (cycle count : Nat) (awaited : List Awaited) :
    ∃ last', Ascent s last'
      (e.sendPass stop cycle (List.range' (last + 1) count) s' awaited).state := by
  induction count generalizing last s' awaited with
  | zero => exact ⟨last, h⟩
  | succ count ih =>
      rw [List.range'_succ]
      unfold sendPass
      split
      · exact ⟨last, h⟩
      · have hprobed := h.record h.now.recordSent
        have hnext : Ascent s (last + 1)
            ((e.probe cycle (last + 1) s').wait e.config.sendDelay) :=
          ⟨hprobed.now, hprobed.timeline⟩
        exact ih hnext _

/-- **Within a cycle** the positions up to some one have had their turn, at every
moment. -/
theorem cycle_ascent (e : Engine) (stop : Stop) (s : State) :
    ∃ last, Ascent s last (e.cycle stop s).state := by
  obtain ⟨last, hpass⟩ :=
    sendPass_ascent (.refl s) e stop s.ledger.cycles e.config.maxHops.toNat []
  rw [Nat.zero_add] at hpass
  have hheard : Ascent s last (e.heardIn stop s).state :=
    (heardIn_heard e stop s).preserves (fun _ _ h => ⟨h.now, h.timeline⟩)
      (fun _ _ h => ⟨h.now, h.timeline⟩) (fun _ n ip d h => h.recordReply n ip d) hpass
  have hnamed : Ascent s last (e.nameHops stop (e.heardIn stop s)) :=
    nameHops_preserves (fun _ _ h => ⟨h.now, h.timeline⟩) (fun _ _ _ h => ⟨h.now, h.timeline⟩)
      (fun l _ h => h.enterName l) hheard
  have hgathered : Ascent s last (e.gathered stop s) := by
    unfold gathered
    split
    · exact ⟨hnamed.now, hnamed.timeline⟩
    · exact ⟨hpass.now, hpass.timeline⟩
  rw [cycle_state]
  exact ⟨last, hgathered.record (hgathered.now.entry rfl fun n =>
    Ledger.map_hop?_finalize (fun _ => rfl) ..)⟩

/-! ### Between cycles -/

/-- The passes so far that were cut short. -/
def State.cutShort (s : State) : Nat :=
  s.passes.countP fun r => !r.isComplete

/-- A position has at most one turn in a pass, and it has it if the pass came as
far. -/
theorem InTurn.countP_ttl {cycle : Nat} {began : Duration} {sendings : List Sending}
    (h : InTurn e cycle began sendings) {n : Nat} (hn : 0 < n) :
    sendings.countP (·.attempt.ttl = n) = if n ≤ sendings.length then 1 else 0 := by
  have hturns : sendings.map (·.attempt.ttl) = List.range' 1 sendings.length := by
    have httl := congrArg (List.map (·.ttl)) h.attempts_eq
    rw [scheduled, List.map_map, List.map_map] at httl
    exact httl.trans (List.map_id _)
  have hcount : sendings.countP (·.attempt.ttl = n) = (List.range' 1 sendings.length).count n := by
    rw [← hturns, List.count, List.countP_map]
    rfl
  have hmem : n ∈ List.range' 1 sendings.length ↔ n ≤ sendings.length := by
    rw [List.mem_range'_1]
    omega
  rw [hcount, List.Nodup.count List.nodup_range']
  simp only [hmem]

/-- **The sends of a hop are the passes that came as far**, in every state
between cycles. -/
theorem Reachable.sent_eq (h : Reachable e waiting asked s) {n : Nat} {g : Hop}
    (hg : s.ledger.hop? n = some g) :
    g.sent = s.passes.countP fun r => decide (n ≤ r.sendings.length) := by
  have hpos : 0 < n := by
    rcases Nat.eq_zero_or_pos n with rfl | hpos
    · cases hg
    · exact hpos
  have hturn : ∀ r ∈ s.passes, r.sendings.countP (·.attempt.ttl = n) =
      if n ≤ r.sendings.length then 1 else 0 := by
    intro r hr
    refine h.forall_reports (P := fun r => r.sendings.countP (·.attempt.ttl = n) =
      if n ≤ r.sendings.length then 1 else 0) ?_ r (List.mem_reverse.1 hr)
    intro s stop _ _
    have hstory := sendPass_story e stop s.ledger.cycles e.hops s []
    rw [sendings_cycleReport]
    exact hstory.inTurn.countP_ttl hpos
  rw [h.countsSends n g hg, ← List.countP_reverse, h.attempts_eq]
  generalize s.passes = passes at hturn
  induction passes with
  | nil => rfl
  | cons r rest ih =>
      rw [List.flatMap_cons, List.countP_append, List.countP_cons,
        hturn r List.mem_cons_self, ih fun r hr => hturn r (List.mem_cons_of_mem _ hr),
        Nat.add_comm]
      simp

theorem Reachable.length_sendings (h : Reachable e waiting asked s) :
    ∀ r ∈ s.passes, r.isComplete = true → r.sendings.length = e.config.maxHops.toNat := by
  intro r hr
  refine h.forall_reports (P := fun r => r.isComplete = true →
    r.sendings.length = e.config.maxHops.toNat) ?_ r (List.mem_reverse.1 hr)
  intro s stop _ _
  exact (cycleReport_onSchedule e stop s).isComplete_iff.1

/-- Every pass is either a completed cycle or cut short. -/
theorem Reachable.length_passes (h : Reachable e waiting asked s) :
    s.passes.length = s.ledger.cycles + s.cutShort := by
  rw [h.numbered.1, State.cutShort]
  rw [List.length_eq_countP_add_countP (·.isComplete)]
  simp

/-- **Between cycles** the sends go down in steps, and the first hop has been sent
to once in every pass at most. -/
theorem Reachable.staircase (h : Reachable e waiting asked s) :
    s.ledger.Staircase s.cutShort := by
  constructor
  case descends =>
    intro n g g' hg hg'
    rw [h.sent_eq hg, h.sent_eq hg']
    refine List.countP_mono_left fun r _ hlast => ?_
    rw [decide_eq_true_eq] at hlast ⊢
    exact Nat.le_of_succ_le hlast
  case cycles_le =>
    intro g hg
    obtain ⟨i, hi⟩ := List.getElem?_of_mem hg
    have hlt : i < e.config.maxHops.toNat := by
      rw [← h.sound.length_hops]
      exact (List.getElem?_eq_some_iff.1 hi).1
    rw [h.sent_eq (n := i + 1) hi, h.numbered.1]
    refine List.countP_mono_left fun r hr hcomplete => ?_
    rw [decide_eq_true_eq, h.length_sendings r hr hcomplete]
    exact hlt
  case first_le =>
    intro g hg
    rw [h.sent_eq hg, ← h.length_passes]
    exact List.countP_le_length

/-! ### Every moment -/

/-- During a cycle the first hop has one send more at most. -/
theorem Reachable.staircase_cycle (h : Reachable e waiting asked s) (stop : Stop) :
    ∃ new, (e.cycle stop s).state.timeline = new ++ s.timeline ∧
      ∀ m ∈ new, m.ledger.Staircase (s.cutShort + 1) := by
  obtain ⟨last, hascent⟩ := cycle_ascent e stop s
  obtain ⟨new, htimeline, hnew⟩ := hascent.timeline
  refine ⟨new, htimeline, fun m hm => ?_⟩
  obtain ⟨last, hm⟩ := hnew m hm
  exact hm.staircase h.staircase

theorem cutShort_closed (hcomplete : (e.cycle stop s).isComplete = true) (mark : Duration) :
    (e.closed stop mark s).cutShort = s.cutShort := by
  rw [State.cutShort, passes_closed, List.countP_append, List.countP_singleton,
    isComplete_cycleReport, hcomplete]
  rfl

/-- A completed cycle counts one more, and so does every hop. -/
theorem Reachable.staircase_closed (h : Reachable e waiting asked s)
    (hstop : stop.raised s = false) (hcomplete : (e.cycle stop s).isComplete = true)
    (mark : Duration) :
    ∃ new, (e.closed stop mark s).timeline = new ++ s.timeline ∧
      ∀ m ∈ new, m.ledger.Staircase (s.cutShort + 1) := by
  obtain ⟨new, htimeline, hnew⟩ := h.staircase_cycle stop
  refine ⟨⟨_, (e.closed stop mark s).ledger⟩ :: new, congrArg _ htimeline, ?_⟩
  intro m hm
  rcases List.mem_cons.1 hm with rfl | hm
  · have hclosed := (h.complete stop mark hstop hcomplete).staircase
    rw [← cutShort_closed hcomplete mark]
    exact hclosed.mono (Nat.le_succ _)
  · exact hnew m hm

/-- **Through all turns of a run the sends go down in steps.**  Only the last pass
of a run may be cut short, so those cut short by a moment of it are those of
its beginning. -/
theorem Turns.staircases {turns completed : Nat} {mark : Duration} {known : List State}
    {ending : Ending} (h : Turns e stop turns mark completed s known f ending)
    (hs : Reachable e waiting asked s) :
    ∃ new, f.timeline = new ++ s.timeline ∧
      ∀ m ∈ new, m.ledger.Staircase (s.cutShort + 1) := by
  have hpause : ∀ s : State, (e.pause stop s).1.timeline = s.timeline := by
    intro s
    obtain ⟨d, hd⟩ := exists_pause_eq_wait e stop s
    rw [hd]
    rfl
  induction h with
  | unfinished | rest => exact ⟨[], rfl, by simp⟩
  | cut => exact hs.staircase_cycle stop
  | enough hstop _ hcomplete _ => exact hs.staircase_closed hstop hcomplete _
  | told hstop _ hcomplete _ _ =>
      rw [hpause]
      exact hs.staircase_closed hstop hcomplete _
  | @next turns mark completed s f known ending hstop _ hcomplete _ _ h ih =>
      obtain ⟨new, htimeline, hnew⟩ := hs.staircase_closed hstop hcomplete mark
      obtain ⟨later, hlater, hsteps⟩ := ih ((hs.complete stop mark hstop hcomplete).pause stop)
      have hsame : (e.pause stop (e.closed stop mark s)).1.cutShort = s.cutShort := by
        rw [State.cutShort, passes_pause]
        exact cutShort_closed hcomplete mark
      rw [hpause, htimeline, ← List.append_assoc] at hlater
      rw [hsame] at hsteps
      refine ⟨later ++ new, hlater, fun m hm => ?_⟩
      rcases List.mem_append.1 hm with hm | hm
      · exact hsteps m hm
      · exact hnew m hm

theorem Reachable.staircase_run (h : Reachable e waiting asked s) (stop : Stop)
    (patience : Nat) :
    ∃ new, (e.runCollecting stop patience s).state.timeline = new ++ s.timeline ∧
      ∀ m ∈ new, m.ledger.Staircase (s.cutShort + 1) := by
  obtain ⟨known, hturns, -, -⟩ := run_turns e stop patience s
  obtain ⟨new, htimeline, hnew⟩ := hturns.staircases h.markStart
  obtain ⟨begun, hbegun, hstart⟩ := timeline_markStart e s
  have hsame : (e.markStart s).cutShort = s.cutShort := by
    rw [State.cutShort, passes_markStart]
    rfl
  have hmark := h.markStart.staircase
  rw [hsame] at hnew hmark
  refine ⟨new ++ begun, ?_, fun m hm => ?_⟩
  · rw [htimeline, hbegun, List.append_assoc]
  rcases List.mem_append.1 hm with hm | hm
  · exact hnew m hm
  · rw [hstart m hm]
    exact hmark.mono (Nat.le_succ _)

/-- At every moment of every history the sends go down in steps. -/
theorem Reachable.exists_staircase (h : Reachable e waiting asked s) :
    ∀ m ∈ s.timeline, ∃ spare, m.ledger.Staircase spare := by
  intro m hm
  rcases h.moments m hm with ⟨b, hb, rfl⟩ | ⟨b, hb, stop, -, hm⟩
  · exact ⟨_, hb.staircase⟩
  · obtain ⟨new, htimeline, hnew⟩ := hb.staircase_cycle stop
    rw [momentsSince_of_append htimeline] at hm
    exact ⟨_, hnew m hm⟩

end PathMeter.Engine
