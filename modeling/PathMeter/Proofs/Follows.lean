import PathMeter.Proofs.Reports
import PathMeter.Proofs.Turns

/-!
# What the log tells of the clock

Attempts and ledgers are logged with the instants at which they come about, so
the log of a later state has, beyond that of an earlier one, only entries that
are no earlier than the earlier clock (`Follows`).  The log thus tells by which
instant the engine had been told to stop (`Stop.toldBy`), and a state in which
it has not is no later than that (`Follows.clock_le`).

From there the clock can only run through the waits that are not broken off: a
pause between two probes, then listening for as long as the time-out allows or
looking up names for as long.  So a cycle that begins before the engine is told
ends within a pause and a time-out (`cycle_clock_le`).
-/

namespace PathMeter.Engine

/-- A later state: its log has only entries added that are no earlier than the
earlier clock, and counts no more cycles than its ledger. -/
structure Follows (s s' : State) : Prop where
  clock : s.clock ≤ s'.clock
  cycles : s.ledger.cycles ≤ s'.ledger.cycles
  attempts : ∃ new, s'.attempts = new ++ s.attempts ∧ ∀ x ∈ new, s.clock ≤ x.attempt.instant
  timeline : ∃ new, s'.timeline = new ++ s.timeline ∧
    ∀ m ∈ new, s.clock ≤ m.instant ∧ m.ledger.cycles ≤ s'.ledger.cycles

variable {e : Engine} {stop : Stop} {waiting : List Arrival} {asked : List String}
  {s s' s'' f : State}

namespace Follows

theorem refl (s : State) : Follows s s :=
  ⟨Nat.le_refl _, Nat.le_refl _, ⟨[], rfl, by simp⟩, ⟨[], rfl, by simp⟩⟩

theorem trans (h₁ : Follows s s') (h₂ : Follows s' s'') : Follows s s'' := by
  obtain ⟨xs, hxs, hold⟩ := h₁.attempts
  obtain ⟨ys, hys, hnew⟩ := h₂.attempts
  obtain ⟨ms, hms, hold'⟩ := h₁.timeline
  obtain ⟨ns, hns, hnew'⟩ := h₂.timeline
  refine ⟨Nat.le_trans h₁.clock h₂.clock, Nat.le_trans h₁.cycles h₂.cycles,
    ⟨ys ++ xs, by rw [hys, hxs, List.append_assoc], ?_⟩,
    ⟨ns ++ ms, by rw [hns, hms, List.append_assoc], ?_⟩⟩
  · intro x hx
    rcases List.mem_append.1 hx with hx | hx
    · exact Nat.le_trans h₁.clock (hnew x hx)
    · exact hold x hx
  · intro m hm
    rcases List.mem_append.1 hm with hm | hm
    · exact ⟨Nat.le_trans h₁.clock (hnew' m hm).1, (hnew' m hm).2⟩
    · exact ⟨(hold' m hm).1, Nat.le_trans (hold' m hm).2 h₂.cycles⟩

theorem wait (h : Follows s s') (d : Duration) : Follows s (s'.wait d) :=
  ⟨Nat.le_trans h.clock (Nat.le_add_right _ _), h.cycles, h.attempts, h.timeline⟩

theorem waitUntil (h : Follows s s') (t : Duration) : Follows s (s'.waitUntil t) := by
  rw [waitUntil_eq_wait]
  exact h.wait _

theorem record (h : Follows s s') {l : Ledger} (hl : s'.ledger.cycles ≤ l.cycles) :
    Follows s (s'.record l) := by
  obtain ⟨new, htimeline, hnew⟩ := h.timeline
  refine ⟨h.clock, Nat.le_trans h.cycles hl, h.attempts,
    ⟨s'.clock, l⟩ :: new, congrArg _ htimeline, ?_⟩
  intro m hm
  rcases List.mem_cons.1 hm with rfl | hm
  · exact ⟨h.clock, Nat.le_refl _⟩
  · exact ⟨(hnew m hm).1, Nat.le_trans (hnew m hm).2 hl⟩

theorem updateHop (h : Follows s s') (n : Nat) (g : Hop → Hop) :
    Follows s (s'.record (s'.ledger.updateHop n g)) :=
  h.record (Nat.le_of_eq (Ledger.cycles_updateHop ..).symm)

theorem probe (h : Follows s s') (e : Engine) (cycle hop : Nat) :
    Follows s (e.probe cycle hop s') := by
  have hrecord := h.updateHop hop Hop.recordSent
  obtain ⟨new, hattempts, hnew⟩ := h.attempts
  refine ⟨hrecord.clock, hrecord.cycles, ⟨_ :: new, congrArg _ hattempts, ?_⟩, hrecord.timeline⟩
  intro x hx
  rcases List.mem_cons.1 hx with rfl | hx
  · exact h.clock
  · exact hnew x hx

theorem leave (h : Follows s s') (queue : List Arrival) :
    Follows s { s' with queue := queue } :=
  ⟨h.clock, h.cycles, h.attempts, h.timeline⟩

theorem ask (h : Follows s s') (e : Engine) (hop : Nat) (ip : IPv4) :
    Follows s (e.ask s' hop ip).2 :=
  ⟨h.clock, h.cycles, h.attempts, h.timeline⟩

theorem file (h : Follows s s') (r : CycleReport) : Follows s (s'.file r) :=
  ⟨h.clock, h.cycles, h.attempts, h.timeline⟩

theorem enterName (h : Follows s s') (l : Lookup) : Follows s (enterName l s') :=
  enterName_cases (fun _ => h) fun _ _ => h.updateHop _ _

theorem finalize (h : Follows s s') : Follows s s'.finalize :=
  h.record (Nat.le_refl _)

/-! ### The stages of a cycle -/

theorem sendPass (h : Follows s s') (e : Engine) (stop : Stop) (cycle : Nat) (hops : List Nat)
    (awaited : List Awaited) : Follows s (e.sendPass stop cycle hops s' awaited).state :=
  sendPass_preserves (fun hop _ h => h.probe e cycle hop) (fun _ d h => h.wait d) h

theorem heardIn (e : Engine) (stop : Stop) (s : State) :
    Follows (e.passOf stop s).state (e.heardIn stop s).state :=
  (heardIn_heard e stop s).preserves (fun _ t h => h.waitUntil t)
    (fun _ queue h => h.leave queue) (fun _ n _ _ h => h.updateHop n _) (.refl _)

theorem nameHops (e : Engine) (stop : Stop) (l : Listening) :
    Follows l.state (e.nameHops stop l) :=
  nameHops_preserves (fun _ t h => h.waitUntil t) (fun _ hop ip h => h.ask e hop ip)
    (fun l _ h => h.enterName l) (.refl _)

theorem cycle (e : Engine) (stop : Stop) (s : State) : Follows s (e.cycle stop s).state := by
  rw [cycle_state]
  apply Follows.finalize
  exact gathered_preserves (fun cycle hop _ h => h.probe e cycle hop) (fun _ d h => h.wait d)
    (fun _ queue h => h.leave queue) (fun _ n _ _ h => h.updateHop n _)
    (fun _ hop ip h => h.ask e hop ip) (fun l _ h => h.enterName l) (fun _ r h => h.file r)
    (.refl s)

theorem closed (e : Engine) (stop : Stop) (mark : Duration) (s : State) :
    Follows s (e.closed stop mark s) :=
  (cycle e stop s).record (Nat.le_succ _)

theorem pause (e : Engine) (stop : Stop) (s : State) : Follows s (e.pause stop s).1 := by
  obtain ⟨d, hd⟩ := exists_pause_eq_wait e stop s
  rw [hd]
  exact (refl s).wait d

end Follows

/-! ### Told by an instant -/

/-- The number of attempts made by an instant. -/
def State.attemptsBy (s : State) (t : Duration) : Nat :=
  s.attempts.countP fun x => decide (x.attempt.instant ≤ t)

/-- The number of cycles completed by an instant. -/
def State.cyclesBy (s : State) (t : Duration) : Nat :=
  (s.timeline.find? fun m => decide (m.instant ≤ t)).elim 0 (·.ledger.cycles)

/-- Whether the engine had been told to stop by an instant, as a later log
shows. -/
def Stop.toldBy (stop : Stop) (s : State) (t : Duration) : Bool :=
  stop.raisedAt t (s.attemptsBy t) (s.cyclesBy t)

/-- A log that counts no more cycles than the ledger. -/
def Logged (s : State) : Prop :=
  ∀ m ∈ s.timeline, m.ledger.cycles ≤ s.ledger.cycles

theorem Reachable.logged (h : Reachable e waiting asked s) : Logged s :=
  fun m hm => (h.ascending.now m hm).2.cycles

theorem Logged.follows (h : Logged s) (hf : Follows s s') : Logged s' := by
  obtain ⟨new, htimeline, hnew⟩ := hf.timeline
  intro m hm
  rw [htimeline] at hm
  rcases List.mem_append.1 hm with hm | hm
  · exact (hnew m hm).2
  · exact Nat.le_trans (h m hm) hf.cycles

theorem attemptsBy_le (s : State) (t : Duration) : s.attemptsBy t ≤ s.attempts.length :=
  List.countP_le_length

theorem Logged.cyclesBy_le (h : Logged s) (t : Duration) : s.cyclesBy t ≤ s.ledger.cycles := by
  unfold State.cyclesBy
  cases hfind : s.timeline.find? fun m => decide (m.instant ≤ t) with
  | none => exact Nat.zero_le _
  | some m => exact h m (List.mem_of_find?_eq_some hfind)

/-- What has not been told by a count is told by the instant. -/
theorem Logged.instant_le (h : Logged s) (hgo : stop.raised s = false) {t : Duration}
    (htold : stop.toldBy s t = true) : ∀ c, stop.instant = some c → c ≤ t := by
  intro c hc
  have hcounts : ¬ stop.raised s = true := Bool.eq_false_iff.1 hgo
  rw [Stop.raised_eq, Stop.raisedAt_iff, not_or, not_or] at hcounts
  rcases Stop.raisedAt_iff.1 htold with ⟨c', hc', hle⟩ | ⟨n, hn, hle⟩ | ⟨n, hn, hle⟩
  · obtain rfl := Option.some.inj (hc.symm.trans hc')
    exact hle
  · exact absurd ⟨n, hn, Nat.le_trans hle (attemptsBy_le s t)⟩ hcounts.2.1
  · exact absurd ⟨n, hn, Nat.le_trans hle (h.cyclesBy_le t)⟩ hcounts.2.2

/-- What was logged before a state was in its log. -/
theorem Follows.attemptsBy_eq (h : Follows s f) {t : Duration} (hlt : t < s.clock) :
    f.attemptsBy t = s.attemptsBy t := by
  obtain ⟨new, hattempts, hnew⟩ := h.attempts
  have hnone : new.countP (fun x => decide (x.attempt.instant ≤ t)) = 0 := by
    rw [List.countP_eq_zero]
    intro x hx
    have hlater : t < x.attempt.instant := Nat.lt_of_lt_of_le hlt (hnew x hx)
    simpa only [decide_eq_true_eq] using Nat.not_le.2 hlater
  rw [State.attemptsBy, hattempts, List.countP_append, hnone, Nat.zero_add]
  rfl

theorem Follows.cyclesBy_eq (h : Follows s f) {t : Duration} (hlt : t < s.clock) :
    f.cyclesBy t = s.cyclesBy t := by
  obtain ⟨new, htimeline, hnew⟩ := h.timeline
  have hnone : new.find? (fun m => decide (m.instant ≤ t)) = none := by
    rw [List.find?_eq_none]
    intro m hm
    have hlater : t < m.instant := Nat.lt_of_lt_of_le hlt (hnew m hm).1
    simpa only [decide_eq_true_eq] using Nat.not_le.2 hlater
  rw [State.cyclesBy, htimeline, List.find?_append, hnone]
  rfl

/-- **Whoever has not been told yet is in time**: a state in which the engine has
not been told to stop is no later than the instant by which it has been. -/
theorem Follows.clock_le (h : Follows s f) (hs : Logged s) (hgo : stop.raised s = false)
    {t : Duration} (htold : stop.toldBy f t = true) : s.clock ≤ t := by
  apply Nat.le_of_not_lt
  intro hlt
  rw [Stop.toldBy, h.attemptsBy_eq hlt, h.cyclesBy_eq hlt] at htold
  have hraised : stop.raised s = true :=
    Stop.raisedAt_mono (Nat.le_of_lt hlt) (attemptsBy_le s t) (hs.cyclesBy_le t) htold
  exact absurd (hgo.symm.trans hraised) Bool.false_ne_true

/-! ### How long a cycle goes on -/

variable {t : Duration}

/-- Where the engine has been told to stop, nothing more is sent. -/
theorem sendPass_of_raised (h : stop.raised s = true) (e : Engine) (cycle : Nat)
    (hops : List Nat) (awaited : List Awaited) :
    (e.sendPass stop cycle hops s awaited).state = s := by
  cases hops with
  | nil => rfl
  | cons hop rest =>
      rw [sendPass, if_pos h]

/-- A send pass ends within a pause after the engine is told to stop. -/
theorem sendPass_clock_le {cycle : Nat} {hops : List Nat} {awaited : List Awaited}
    (hs : Logged s) (hgo : stop.raised s = false)
    (hf : Follows (e.sendPass stop cycle hops s awaited).state f)
    (htold : stop.toldBy f t = true) :
    (e.sendPass stop cycle hops s awaited).state.clock ≤ t + e.config.sendDelay := by
  have hstart : s.clock ≤ t :=
    (((Follows.refl s).sendPass e stop cycle hops awaited).trans hf).clock_le hs hgo htold
  induction hops generalizing s awaited with
  | nil => exact Nat.le_add_right_of_le hstart
  | cons hop rest ih =>
      have hunraised : ¬ stop.raised s = true := Bool.eq_false_iff.1 hgo
      rw [sendPass, if_neg hunraised] at hf ⊢
      have hprobed : Follows s ((e.probe cycle hop s).wait e.config.sendDelay) :=
        ((Follows.refl s).probe e cycle hop).wait _
      generalize hnext : (e.probe cycle hop s).wait e.config.sendDelay = next at hf hprobed ⊢
      by_cases htoldNow : stop.raised next = true
      · rw [sendPass_of_raised htoldNow, ← hnext]
        exact Nat.add_le_add_right hstart _
      · have hgoNext := Bool.eq_false_iff.2 htoldNow
        have hlogged := hs.follows hprobed
        apply ih hlogged hgoNext hf
        exact (((Follows.refl next).sendPass e stop cycle rest _).trans hf).clock_le hlogged
          hgoNext htold

/-- Listening does not go on after the deadline. -/
theorem listenUntil_clock_le {enough : Listening → Bool} {cycle : Nat} {deadline : Duration}
    {queue : List Arrival} {l : Listening} (hl : l.state.clock ≤ deadline) :
    (e.listenUntil enough cycle deadline queue l).2.state.clock ≤ deadline := by
  have huntil : ∀ {l : Listening} {t : Duration}, l.state.clock ≤ deadline → t ≤ deadline →
      (l.state.waitUntil t).clock ≤ deadline := fun hl ht => Nat.max_le.2 ⟨hl, ht⟩
  induction queue generalizing l with
  | nil =>
      unfold listenUntil
      split
      · exact hl
      · exact huntil hl (Nat.le_refl _)
  | cons a rest ih =>
      unfold listenUntil
      split
      · exact hl
      · split
        · next hdue =>
          rw [Nat.max_eq_right hl] at hdue
          dsimp only
          split
          · exact huntil hl hdue
          · apply ih
            rw [state_clock_take]
            exact huntil hl hdue
        · exact huntil hl (Nat.le_refl _)

theorem heardIn_clock_le (e : Engine) (stop : Stop) (s : State) :
    (e.heardIn stop s).state.clock ≤ (e.passOf stop s).state.clock + e.config.timeout :=
  listenUntil_clock_le (Nat.le_add_right _ _)

/-- Looking up names does not go on after the deadline. -/
theorem lookUpFrom_clock_le {deadline : Duration} {hops : List Nat} {active : List Lookup}
    (hs : s.clock ≤ deadline) :
    (e.lookUpFrom stop deadline hops active s).clock ≤ deadline := by
  have hcut : stop.cut deadline ≤ deadline := by
    unfold Stop.cut
    split
    · exact Nat.min_le_right _ _
    · exact Nat.le_refl _
  fun_induction lookUpFrom e stop deadline hops active s with
  | case1 waiting active s hop rest hn _ haddress ih => exact ih hs
  | case2 waiting active s hop rest hn _ address haddress l s' hasked ih =>
      apply ih
      have hsame : s.clock = s'.clock := congrArg (·.2.clock) hasked
      rw [← hsame]
      exact hs
  | case3 waiting s hn => exact hs
  | case4 waiting active s hn hactive hnone => exact Nat.max_le.2 ⟨hs, hcut⟩
  | case5 waiting active s hn hactive t l others hfirst _ hin ih =>
      apply ih
      rw [(enterName_frame l (s.waitUntil t)).1]
      exact Nat.max_le.2 ⟨hs, hin.1⟩
  | case6 waiting active s hn hactive t l others hfirst _ hin => exact Nat.max_le.2 ⟨hs, hcut⟩

/-- Looking up names takes no longer than the time-out, and no time at all when
the engine has been told to stop. -/
theorem nameHops_clock_le (e : Engine) (stop : Stop) (l : Listening) :
    (e.nameHops stop l).clock ≤ l.state.clock + e.config.timeout ∧
      (stop.raised l.state = true → (e.nameHops stop l).clock = l.state.clock) := by
  unfold nameHops lookUp
  split
  · split
    · exact ⟨Nat.le_add_right _ _, fun _ => rfl⟩
    · next hgo =>
      refine ⟨lookUpFrom_clock_le (Nat.le_add_right _ _), fun hraised => ?_⟩
      exact absurd (Or.inr hraised) hgo
  · exact ⟨Nat.le_add_right _ _, fun _ => rfl⟩

/-- **A cycle ends within a pause and a time-out** after the engine is told to
stop, if it began before. -/
theorem cycle_clock_le (hs : Logged s) (hgo : stop.raised s = false)
    (hf : Follows (e.cycle stop s).state f) (htold : stop.toldBy f t = true) :
    (e.cycle stop s).state.clock ≤ t + e.config.sendDelay + e.config.timeout := by
  by_cases hcomplete : (e.passOf stop s).isComplete = true
  · rw [cycle_of_complete hcomplete] at hf ⊢
    show (e.nameHops stop (e.heardIn stop s)).clock ≤ _
    have hnamed : Follows (e.nameHops stop (e.heardIn stop s)) f :=
      (((Follows.refl _).file _).finalize).trans hf
    have hheard : Follows (e.heardIn stop s).state f :=
      (Follows.nameHops e stop (e.heardIn stop s)).trans hnamed
    have hlogged : Logged (e.heardIn stop s).state :=
      hs.follows (((Follows.refl s).sendPass e stop _ _ _).trans (Follows.heardIn e stop s))
    have hpass := sendPass_clock_le hs hgo ((Follows.heardIn e stop s).trans hheard) htold
    have hlistening := heardIn_clock_le e stop s
    obtain ⟨hnames, hnone⟩ := nameHops_clock_le e stop (e.heardIn stop s)
    by_cases hraised : stop.raised (e.heardIn stop s).state = true
    · rw [hnone hraised]
      exact Nat.le_trans hlistening (Nat.add_le_add_right hpass _)
    · have hle := hheard.clock_le hlogged (Bool.eq_false_iff.2 hraised) htold
      exact Nat.le_trans hnames (Nat.add_le_add_right (Nat.le_add_right_of_le hle) _)
  · rw [cycle_of_cut hcomplete] at hf ⊢
    have hpassed : Follows (e.passOf stop s).state f :=
      (((Follows.refl _).file _).finalize).trans hf
    exact Nat.le_add_right_of_le (sendPass_clock_le hs hgo hpassed htold)

end PathMeter.Engine
