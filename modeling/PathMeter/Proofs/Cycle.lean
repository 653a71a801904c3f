import PathMeter.Engine.Run
import PathMeter.Proofs.Listening

/-!
# What a cycle does

A cycle is a send pass, perhaps listening and lookups, and an update of all
figures.  Each of these keeps the ledger sound, takes deliveries off the head
of the queue and counts no cycle, so a cycle does.  What it leaves behind is a
report, `cycleReport`: every cycle files exactly this one (`cycle_reports`),
and the samples of the ledger grow by exactly the round trips that it names
(`cycle_samples`).
-/

namespace PathMeter.Engine

variable {e : Engine} {stop : Stop}

/-- What waiting, asking and naming preserve, looking up preserves. -/
theorem lookUpFrom_preserves {P : State → Prop} (hwait : ∀ s t, P s → P (s.waitUntil t))
    (hask : ∀ s hop ip, P s → P (e.ask s hop ip).2) (hname : ∀ l s, P s → P (enterName l s))
    (deadline : Duration) (waiting : List Nat) (active : List Lookup) {s : State} (hs : P s) :
    P (e.lookUpFrom stop deadline waiting active s) := by
  fun_induction lookUpFrom e stop deadline waiting active s with
  | case1 waiting active s hop rest hn _ haddress ih => exact ih hs
  | case2 waiting active s hop rest hn _ address haddress l s' hasked ih =>
      exact ih (by simpa [hasked] using hask s hop address hs)
  | case3 waiting s hn => exact hs
  | case4 waiting active s hn hactive hnone => exact hwait _ _ hs
  | case5 waiting active s hn hactive t l others hfirst _ hin ih =>
      exact ih (hname _ _ (hwait _ _ hs))
  | case6 waiting active s hn hactive t l others hfirst _ hin => exact hwait _ _ hs

theorem enterName_frame (l : Lookup) (s : State) :
    (enterName l s).clock = s.clock ∧ (enterName l s).questions = s.questions :=
  enterName_cases (fun _ => ⟨rfl, rfl⟩) fun _ _ => ⟨rfl, rfl⟩

/-- Naming changes names and nothing else: what is behind the other fields of a
state stays as it was. -/
structure OnlyNamed (s s' : State) : Prop where
  queue : s'.queue = s.queue
  attempts : s'.attempts = s.attempts
  reports : s'.reports = s.reports
  cycles : s'.ledger.cycles = s.ledger.cycles
  destination : s'.ledger.destination = s.ledger.destination
  samples : ∀ n, (s'.ledger.hop? n).map (·.samples) = (s.ledger.hop? n).map (·.samples)

theorem OnlyNamed.enterName {s s' : State} (h : OnlyNamed s s') (l : Lookup) :
    OnlyNamed s (enterName l s') := by
  refine enterName_cases (fun _ => h) fun name _ => ?_
  refine ⟨h.queue, h.attempts, h.reports, (Ledger.cycles_updateHop ..).trans h.cycles,
    (Ledger.destination_updateHop ..).trans h.destination, fun n => ?_⟩
  refine (Ledger.map_hop?_updateHop ?_ s'.ledger _ _).trans (h.samples n)
  intro g
  split <;> rfl

theorem nameHops_preserves {P : State → Prop} (hwait : ∀ s t, P s → P (s.waitUntil t))
    (hask : ∀ s hop ip, P s → P (e.ask s hop ip).2) (hname : ∀ l s, P s → P (enterName l s))
    {l : Listening} (hl : P l.state) : P (e.nameHops stop l) := by
  unfold nameHops lookUp
  split
  · split
    · exact hl
    · exact lookUpFrom_preserves hwait hask hname _ _ _ hl
  · exact hl

theorem nameHops_onlyNamed (e : Engine) (stop : Stop) (l : Listening) :
    OnlyNamed l.state (e.nameHops stop l) :=
  nameHops_preserves (fun _ _ h => ⟨h.1, h.2, h.3, h.4, h.5, h.6⟩)
    (fun _ _ _ h => ⟨h.1, h.2, h.3, h.4, h.5, h.6⟩) (fun l _ h => h.enterName l)
    ⟨rfl, rfl, rfl, rfl, rfl, fun _ => rfl⟩

theorem nameHops_sound {m : Nat} {l : Listening} (hl : l.state.ledger.Sound m) :
    (e.nameHops stop l).ledger.Sound m := by
  apply nameHops_preserves (P := fun s => s.ledger.Sound m) _ _ _ hl
  · exact fun _ _ h => h
  · exact fun _ _ _ h => h
  · intro l s hs
    refine enterName_cases (fun _ => hs) fun name _ => hs.updateHop ?_ ?_
    · intro g
      split <;> rfl
    · intro g hle
      split <;> exact hle

/-- Listening takes deliveries off the head of the queue. -/
theorem receiveUntil_queue (enough : Listening → Bool) (e : Engine) (cycle : Nat) (s : State)
    (awaited : List Awaited) :
    ∃ taken, s.queue = taken ++ (e.receiveUntil enough cycle s awaited).state.queue ∧
      (e.receiveUntil enough cycle s awaited).reads.map (fun r => (r.due, r.packet)) =
        taken.filterMap fun a => a.packet?.map fun packet => (a.due, packet) :=
  listenUntil_reads enough e cycle _ s.queue (Listening.start s awaited)

/-- What is left in the queue was in it before. -/
theorem mem_queue_of_receiveUntil {enough : Listening → Bool} {cycle : Nat} {s : State}
    {awaited : List Awaited} {a : Arrival}
    (ha : a ∈ (e.receiveUntil enough cycle s awaited).state.queue) : a ∈ s.queue := by
  obtain ⟨taken, hqueue, -⟩ := receiveUntil_queue enough e cycle s awaited
  rw [hqueue]
  exact List.mem_append_right taken ha

/-- Every datagram read was in the queue. -/
theorem exists_arrival_of_mem_reads {enough : Listening → Bool} {cycle : Nat} {s : State}
    {awaited : List Awaited} {r : Read} (hr : r ∈ (e.receiveUntil enough cycle s awaited).reads) :
    ∃ a ∈ s.queue, a.due = r.due ∧ a.packet? = some r.packet := by
  obtain ⟨taken, hqueue, hreads⟩ := receiveUntil_queue enough e cycle s awaited
  have hmem := List.mem_map_of_mem (f := fun r : Read => (r.due, r.packet)) hr
  rw [hreads] at hmem
  obtain ⟨a, ha, hpair⟩ := List.mem_filterMap.1 hmem
  obtain ⟨packet, hpacket, heq⟩ := Option.map_eq_some_iff.1 hpair
  obtain ⟨hdue, rfl⟩ := Prod.mk.inj heq
  exact ⟨a, hqueue ▸ List.mem_append_left _ ha, hdue, hpacket⟩

/-- Out of a queue in order every datagram is read when it is due, or when
listening begins if it was due before. -/
theorem receiveUntil_instant {enough : Listening → Bool} {cycle : Nat} {s : State}
    {awaited : List Awaited} (hq : InOrder s.queue) :
    ∀ r ∈ (e.receiveUntil enough cycle s awaited).reads, r.instant = max s.clock r.due :=
  listenUntil_instant hq (Nat.le_refl _) (fun _ _ => Nat.le_max_left ..)
    (by simp [Listening.start])

/-- Listening counts no cycle and files no report. -/
theorem Heard.frame {cycle : Nat} {s : State} {awaited : List Awaited} {l : Listening}
    (h : Heard e cycle (.start s awaited) l) :
    l.state.ledger.cycles = s.ledger.cycles ∧ l.state.reports = s.reports :=
  h.preserves (P := fun s' => s'.ledger.cycles = s.ledger.cycles ∧ s'.reports = s.reports)
    (fun _ _ h => h) (fun _ _ h => h)
    (fun _ _ _ _ h => ⟨(Ledger.cycles_updateHop ..).trans h.1, h.2⟩) ⟨rfl, rfl⟩

/-- Listening attempts nothing. -/
theorem Heard.attempts {cycle : Nat} {s : State} {awaited : List Awaited} {l : Listening}
    (h : Heard e cycle (.start s awaited) l) : l.state.attempts = s.attempts :=
  h.preserves (P := fun s' => s'.attempts = s.attempts)
    (fun _ _ h => h) (fun _ _ h => h) (fun _ _ _ _ h => h) rfl

theorem Heard.destination {cycle : Nat} {s : State} {awaited : List Awaited} {l : Listening}
    (h : Heard e cycle (.start s awaited) l) :
    l.state.ledger.destination = s.ledger.destination :=
  h.preserves (P := fun s' => s'.ledger.destination = s.ledger.destination)
    (fun _ _ h => h) (fun _ _ h => h)
    (fun _ _ _ _ h => (Ledger.destination_updateHop ..).trans h) rfl

theorem Heard.sound {cycle m : Nat} {s : State} {awaited : List Awaited} {l : Listening}
    (h : Heard e cycle (.start s awaited) l) (hs : s.ledger.Sound m) :
    l.state.ledger.Sound m :=
  h.preserves (P := fun s => s.ledger.Sound m) (fun _ _ h => h) (fun _ _ h => h)
    (fun _ _ ip d h => h.recordReply ip d) hs

/-- The send pass of a cycle. -/
def passOf (e : Engine) (stop : Stop) (s : State) : SendPass :=
  e.sendPass stop s.ledger.cycles e.hops s []

/-- What is heard in a cycle whose send pass is complete. -/
def heardIn (e : Engine) (stop : Stop) (s : State) : Listening :=
  e.receive s.ledger.cycles (e.passOf stop s).state (e.passOf stop s).awaited

/-- The report of a cycle. -/
def cycleReport (e : Engine) (stop : Stop) (s : State) : CycleReport :=
  if (e.passOf stop s).isComplete then
    (e.heardIn stop s).addTo ((e.passOf stop s).report s.ledger.cycles s)
  else (e.passOf stop s).report s.ledger.cycles s

theorem heardIn_heard (e : Engine) (stop : Stop) (s : State) :
    Heard e s.ledger.cycles (.start (e.passOf stop s).state (e.passOf stop s).awaited)
      (e.heardIn stop s) :=
  receiveUntil_heard ..

theorem cycle_of_complete {s : State} (h : (e.passOf stop s).isComplete = true) :
    e.cycle stop s =
      ⟨((e.nameHops stop (e.heardIn stop s)).file (e.cycleReport stop s)).finalize, true⟩ := by
  unfold cycleReport
  rw [if_pos h]
  exact if_pos h

theorem cycle_of_cut {s : State} (h : ¬ (e.passOf stop s).isComplete = true) :
    e.cycle stop s = ⟨((e.passOf stop s).state.file (e.cycleReport stop s)).finalize, false⟩ := by
  unfold cycleReport
  rw [if_neg h]
  exact if_neg h

/-- A cycle is completed when its send pass is. -/
theorem isComplete_cycleReport (e : Engine) (stop : Stop) (s : State) :
    (e.cycleReport stop s).isComplete = (e.cycle stop s).isComplete := by
  by_cases h : (e.passOf stop s).isComplete = true
  · rw [cycle_of_complete h, cycleReport, if_pos h]
    exact h
  · rw [cycle_of_cut h, cycleReport, if_neg h]
    exact Bool.eq_false_iff.2 h

/-- **A cycle files its report.** -/
theorem cycle_reports (e : Engine) (stop : Stop) (s : State) :
    (e.cycle stop s).state.reports = e.cycleReport stop s :: s.reports := by
  by_cases h : (e.passOf stop s).isComplete = true
  · rw [cycle_of_complete h]
    show _ :: (e.nameHops stop (e.heardIn stop s)).reports = _
    rw [(nameHops_onlyNamed e stop _).reports, (heardIn_heard e stop s).frame.2]
    exact congrArg _ sendPass_reports
  · rw [cycle_of_cut h]
    exact congrArg _ sendPass_reports

/-- A cycle attempts what its send pass attempts. -/
theorem cycle_attempts (e : Engine) (stop : Stop) (s : State) :
    (e.cycle stop s).state.attempts = (e.passOf stop s).state.attempts := by
  by_cases h : (e.passOf stop s).isComplete = true
  · rw [cycle_of_complete h]
    exact (nameHops_onlyNamed e stop _).attempts.trans (heardIn_heard e stop s).attempts
  · rw [cycle_of_cut h]
    rfl

/-- What waits to be read after a cycle waited at the end of its send pass. -/
theorem mem_queue_of_cycle {s : State} {a : Arrival} (ha : a ∈ (e.cycle stop s).state.queue) :
    a ∈ (e.passOf stop s).state.queue := by
  by_cases h : (e.passOf stop s).isComplete = true
  · rw [cycle_of_complete h] at ha
    change a ∈ (e.nameHops stop (e.heardIn stop s)).queue at ha
    rw [(nameHops_onlyNamed e stop _).queue] at ha
    exact mem_queue_of_receiveUntil ha
  · rw [cycle_of_cut h] at ha
    exact ha

/-- What a cycle reads waited at the end of its send pass. -/
theorem exists_arrival_of_mem_report {s : State} {r : Read}
    (hr : r ∈ (e.cycleReport stop s).reads) :
    ∃ a ∈ (e.passOf stop s).state.queue, a.due = r.due ∧ a.packet? = some r.packet := by
  unfold cycleReport at hr
  split at hr
  · exact exists_arrival_of_mem_reads hr
  · simp [SendPass.report] at hr

/-- A cycle does not count itself. -/
theorem cycle_cycles (e : Engine) (stop : Stop) (s : State) :
    (e.cycle stop s).state.ledger.cycles = s.ledger.cycles := by
  by_cases h : (e.passOf stop s).isComplete = true
  · rw [cycle_of_complete h]
    show (e.nameHops stop (e.heardIn stop s)).ledger.cycles = _
    rw [(nameHops_onlyNamed e stop _).cycles, (heardIn_heard e stop s).frame.1]
    exact sendPass_cycles
  · rw [cycle_of_cut h]
    exact sendPass_cycles

theorem cycle_destination (e : Engine) (stop : Stop) (s : State) :
    (e.cycle stop s).state.ledger.destination = s.ledger.destination := by
  by_cases h : (e.passOf stop s).isComplete = true
  · rw [cycle_of_complete h]
    show (e.nameHops stop (e.heardIn stop s)).ledger.destination = _
    rw [(nameHops_onlyNamed e stop _).destination, (heardIn_heard e stop s).destination]
    exact sendPass_destination
  · rw [cycle_of_cut h]
    exact sendPass_destination

theorem cycle_sound {m : Nat} {s : State} (hs : s.ledger.Sound m) :
    (e.cycle stop s).state.ledger.Sound m := by
  have hpass : (e.passOf stop s).state.ledger.Sound m := sendPass_sound hs
  by_cases h : (e.passOf stop s).isComplete = true
  · rw [cycle_of_complete h]
    exact (nameHops_sound ((heardIn_heard e stop s).sound hpass)).finalize
  · rw [cycle_of_cut h]
    exact hpass.finalize

theorem cycle_inOrder {s : State} (hs : InOrder s.queue) :
    InOrder (e.cycle stop s).state.queue := by
  have hpass : InOrder (e.passOf stop s).state.queue := sendPass_inOrder hs
  by_cases h : (e.passOf stop s).isComplete = true
  · rw [cycle_of_complete h]
    show InOrder (e.nameHops stop (e.heardIn stop s)).queue
    rw [(nameHops_onlyNamed e stop _).queue]
    obtain ⟨taken, hqueue, -⟩ := receiveUntil_queue Listening.isSettled e s.ledger.cycles
      (e.passOf stop s).state (e.passOf stop s).awaited
    rw [hqueue] at hpass
    exact (List.pairwise_append.1 hpass).2.1
  · rw [cycle_of_cut h]
    exact hpass

/-- The round trips that a report names for a hop. -/
def CycleReport.roundTrips (r : CycleReport) (n : Nat) : List Duration :=
  r.reads.filterMap (Read.roundTrip? n)

/-- **The sample of a hop** grows by the round trips that the report of the
cycle names. -/
theorem cycle_samples (e : Engine) (stop : Stop) {s : State}
    (hs : s.ledger.Sound e.config.maxHops.toNat) (n : Nat) :
    ((e.cycle stop s).state.ledger.hop? n).map (·.samples) =
      (s.ledger.hop? n).map fun h => h.samples ++ (e.cycleReport stop s).roundTrips n := by
  have hpass : ((e.passOf stop s).state.ledger.hop? n).map (·.samples) =
      (s.ledger.hop? n).map (·.samples) := sendPass_samples
  by_cases h : (e.passOf stop s).isComplete = true
  · have hreads : (e.cycleReport stop s).reads = (e.heardIn stop s).reads := by
      rw [cycleReport, if_pos h]
      rfl
    have hheard := (heardIn_heard e stop s).samples (sendPass_owes_hops e stop _ hs) n
    have happend := congrArg (Option.map (· ++ (e.cycleReport stop s).roundTrips n)) hpass
    rw [cycle_of_complete h]
    refine (Ledger.map_hop?_finalize (fun _ => rfl) _ n).trans ?_
    refine ((nameHops_onlyNamed e stop _).samples n).trans (hheard.trans ?_)
    simpa [CycleReport.roundTrips, hreads, Function.comp_def] using happend
  · have hnone : (e.cycleReport stop s).roundTrips n = [] := by
      rw [cycleReport, if_neg h]
      rfl
    rw [cycle_of_cut h, hnone]
    refine (Ledger.map_hop?_finalize (fun _ => rfl) _ n).trans ?_
    simp only [List.append_nil]
    exact hpass

end PathMeter.Engine
