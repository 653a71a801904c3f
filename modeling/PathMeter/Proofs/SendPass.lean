import PathMeter.Engine.SendPass
import PathMeter.Proofs.Ledger

/-!
# What a send pass does

A send pass goes through the positions in order and stops only where it is
told to.  Its attempts tell the whole story (`sendPass_story`): each is aimed
at the next position and followed by a pause, and the probes awaited at the
end are the attempts that were sent, with the instants at which they were
made.

Two invariants go through the pass.  The queue stays in the order of reading,
and every awaited probe belongs to a hop that has more sends than replies
(`sendPass_owes`), which is why a later reply to it is never refused.
-/

namespace PathMeter.Engine

/-- A queue in the order of reading. -/
def InOrder (queue : List Arrival) : Prop :=
  queue.Pairwise fun a b => a.due ≤ b.due

theorem mem_enqueue {queue : List Arrival} {a b : Arrival} :
    b ∈ enqueue queue a ↔ b = a ∨ b ∈ queue := by
  induction queue with
  | nil => simp [enqueue]
  | cons c rest ih =>
      unfold enqueue
      split
      · simp
      · simp only [List.mem_cons, ih, or_left_comm]

theorem mem_enqueueAll {queue arrivals : List Arrival} {b : Arrival} :
    b ∈ arrivals.foldl enqueue queue ↔ b ∈ arrivals ∨ b ∈ queue := by
  induction arrivals generalizing queue with
  | nil => simp
  | cons a rest ih => rw [List.foldl_cons, ih, mem_enqueue, List.mem_cons, or_left_comm, or_assoc]

/-- Queueing a delivery keeps the order of reading. -/
theorem InOrder.enqueue {queue : List Arrival} (h : InOrder queue) (a : Arrival) :
    InOrder (enqueue queue a) := by
  induction queue with
  | nil => exact List.pairwise_singleton _ a
  | cons b rest ih =>
      obtain ⟨hb, hrest⟩ := List.pairwise_cons.1 h
      unfold Engine.enqueue
      split
      · next hlt =>
        refine List.pairwise_cons.2 ⟨?_, h⟩
        intro c hc
        rcases List.mem_cons.1 hc with rfl | hc
        · exact Nat.le_of_lt hlt
        · exact Nat.le_trans (Nat.le_of_lt hlt) (hb c hc)
      · next hge =>
        refine List.pairwise_cons.2 ⟨?_, ih hrest⟩
        intro c hc
        rcases mem_enqueue.1 hc with rfl | hc
        · exact Nat.le_of_not_lt hge
        · exact hb c hc

theorem InOrder.enqueueAll {queue : List Arrival} (h : InOrder queue) (arrivals : List Arrival) :
    InOrder (arrivals.foldl Engine.enqueue queue) := by
  induction arrivals generalizing queue with
  | nil => exact h
  | cons a rest ih => exact ih (h.enqueue a)

/-- The probe that an attempt leaves to be awaited. -/
def Awaited.ofSending (x : Sending) : Awaited :=
  ⟨x.attempt.ttl, x.attempt.instant⟩

/-- Every probe in a list belongs to a hop that has more sends than replies. -/
def Owes (l : Ledger) (awaited : List Awaited) : Prop :=
  ∀ a ∈ awaited, ∃ h, l.hop? a.hop = some h ∧ h.received < h.sent

variable {e : Engine} {stop : Stop} {cycle : Nat}

/-- What every probe and every pause preserves, a send pass preserves. -/
theorem sendPass_preserves {P : State → Prop}
    (hprobe : ∀ hop s, P s → P (e.probe cycle hop s)) (hwait : ∀ s d, P s → P (s.wait d))
    {hops : List Nat} {s : State} {awaited : List Awaited} (hs : P s) :
    P (e.sendPass stop cycle hops s awaited).state := by
  induction hops generalizing s awaited with
  | nil => exact hs
  | cons hop rest ih =>
      unfold sendPass
      split
      · exact hs
      · exact ih (hwait _ _ (hprobe hop s hs))

theorem sendPass_inOrder {hops : List Nat} {s : State} {awaited : List Awaited}
    (hs : InOrder s.queue) : InOrder (e.sendPass stop cycle hops s awaited).state.queue :=
  sendPass_preserves (P := fun s => InOrder s.queue)
    (fun _ _ h => h.enqueueAll _) (fun _ _ h => h) hs

theorem sendPass_sound {m : Nat} {hops : List Nat} {s : State} {awaited : List Awaited}
    (hs : s.ledger.Sound m) : (e.sendPass stop cycle hops s awaited).state.ledger.Sound m :=
  sendPass_preserves (P := fun s => s.ledger.Sound m)
    (fun _ _ h => h.recordSent) (fun _ _ h => h) hs

theorem sendPass_cycles {hops : List Nat} {s : State} {awaited : List Awaited} :
    (e.sendPass stop cycle hops s awaited).state.ledger.cycles = s.ledger.cycles :=
  sendPass_preserves (P := fun s' => s'.ledger.cycles = s.ledger.cycles)
    (fun _ _ h => (Ledger.cycles_updateHop ..).trans h) (fun _ _ h => h) rfl

theorem sendPass_destination {hops : List Nat} {s : State} {awaited : List Awaited} :
    (e.sendPass stop cycle hops s awaited).state.ledger.destination = s.ledger.destination :=
  sendPass_preserves (P := fun s' => s'.ledger.destination = s.ledger.destination)
    (fun _ _ h => (Ledger.destination_updateHop ..).trans h) (fun _ _ h => h) rfl

theorem sendPass_reports {hops : List Nat} {s : State} {awaited : List Awaited} :
    (e.sendPass stop cycle hops s awaited).state.reports = s.reports :=
  sendPass_preserves (P := fun s' => s'.reports = s.reports)
    (fun _ _ h => h) (fun _ _ h => h) rfl

/-- Sends are counted where nothing else is: no round trip is entered. -/
theorem sendPass_samples {n : Nat} {hops : List Nat} {s : State} {awaited : List Awaited} :
    ((e.sendPass stop cycle hops s awaited).state.ledger.hop? n).map (·.samples) =
      (s.ledger.hop? n).map (·.samples) :=
  sendPass_preserves
    (P := fun s' => (s'.ledger.hop? n).map (·.samples) = (s.ledger.hop? n).map (·.samples))
    (fun _ _ h =>
      (Ledger.map_hop?_updateHop (f := Hop.recordSent) (fun _ => rfl) ..).trans h)
    (fun _ _ h => h) rfl

/-- A send is one more, so the probe just sent is owed an answer, and the
answers owed before are still owed. -/
theorem Owes.probe {m hop : Nat} {s : State} {awaited : List Awaited}
    (h : Owes s.ledger awaited) (e : Engine) (cycle : Nat) (hs : s.ledger.Sound m)
    (h1 : 1 ≤ hop) (hm : hop ≤ m) :
    Owes (e.probe cycle hop s).ledger (awaited ++ [⟨hop, s.clock⟩]) := by
  have hown : ∃ h', (e.probe cycle hop s).ledger.hop? hop = some h' ∧ h'.received < h'.sent := by
    obtain ⟨g, hg⟩ := hs.exists_hop h1 hm
    have hle := hs.bounded g (Ledger.mem_of_hop? hg)
    refine ⟨g.recordSent, ?_, Nat.lt_succ_of_le hle⟩
    show (s.ledger.updateHop hop Hop.recordSent).hop? hop = _
    rw [Ledger.hop?_updateHop_self, hg]
    rfl
  intro a ha
  rcases List.mem_append.1 ha with ha | ha
  · -- a hop may be awaited already; it then has one more send all the same
    by_cases heq : a.hop = hop
    · rw [heq]
      exact hown
    · obtain ⟨g, hg, hlt⟩ := h a ha
      exact ⟨g, (Ledger.hop?_updateHop_of_ne _ heq).trans hg, hlt⟩
  · rw [List.mem_singleton.1 ha]
    exact hown

theorem Owes.mono {l : Ledger} {few many : List Awaited} (h : Owes l many)
    (hsub : ∀ a ∈ few, a ∈ many) : Owes l few :=
  fun a ha => h a (hsub a ha)

/-- **Awaited probes are owed an answer.**  At the end of a send pass every
awaited probe belongs to a hop with more sends than replies. -/
theorem sendPass_owes (e : Engine) (stop : Stop) (cycle : Nat) {m : Nat} {hops : List Nat}
    {s : State} {awaited : List Awaited} (hs : s.ledger.Sound m)
    (hhops : ∀ hop ∈ hops, 1 ≤ hop ∧ hop ≤ m) (howes : Owes s.ledger awaited) :
    Owes (e.sendPass stop cycle hops s awaited).state.ledger
      (e.sendPass stop cycle hops s awaited).awaited := by
  induction hops generalizing s awaited with
  | nil => exact howes
  | cons hop rest ih =>
      unfold sendPass
      split
      · exact howes
      · have hhop := hhops hop List.mem_cons_self
        have hnext := howes.probe e cycle hs hhop.1 hhop.2
        apply ih
        · exact hs.recordSent
        · exact fun n hn => hhops n (List.mem_cons_of_mem _ hn)
        · apply hnext.mono
          intro a ha
          split at ha
          · exact ha
          · exact List.mem_append_left _ ha

/-- What the attempts of a send pass tell about it. -/
structure Story (e : Engine) (cycle : Nat) (hops : List Nat) (s : State)
    (awaited : List Awaited) (pass : SendPass) (sendings : List Sending) : Prop where
  /-- The attempts made before are still on record. -/
  attempts : pass.state.attempts = sendings.reverse ++ s.attempts
  /-- What was sent is awaited. -/
  awaited : pass.awaited =
    awaited ++ (sendings.filter (·.outcome.isSent)).map Awaited.ofSending
  /-- There is a pause after every attempt. -/
  clock : pass.state.clock = s.clock + sendings.length * e.config.sendDelay
  /-- The pass is complete when no position is left. -/
  isComplete : pass.isComplete = true ↔ sendings.length = hops.length
  /-- Attempt number `i` is aimed at position number `i`, after `i` pauses. -/
  attempt : ∀ i x, sendings[i]? = some x → ∃ hop, hops[i]? = some hop ∧
    x.attempt = e.attempt cycle hop (s.clock + i * e.config.sendDelay)

theorem exists_story (e : Engine) (stop : Stop) (cycle : Nat) (hops : List Nat) (s : State)
    (awaited : List Awaited) :
    ∃ sendings, Story e cycle hops s awaited (e.sendPass stop cycle hops s awaited) sendings := by
  induction hops generalizing s awaited with
  | nil => exact ⟨[], by constructor <;> simp [sendPass]⟩
  | cons hop rest ih =>
      unfold sendPass
      split
      · exact ⟨[], by constructor <;> simp⟩
      · let x : Sending := ⟨e.attempt cycle hop s.clock, e.outcome cycle hop s⟩
        obtain ⟨sendings, h⟩ := ih ((e.probe cycle hop s).wait e.config.sendDelay)
          (if (e.outcome cycle hop s).isSent then awaited ++ [⟨hop, s.clock⟩] else awaited)
        refine ⟨x :: sendings, ?_, ?_, ?_, ?_, ?_⟩
        · rw [h.attempts, List.reverse_cons, List.append_assoc]
          rfl
        · rw [h.awaited]
          by_cases hsent : (e.outcome cycle hop s).isSent = true
          · simp [x, hsent, Awaited.ofSending, Engine.attempt]
          · simp [x, hsent]
        · rw [h.clock]
          show s.clock + e.config.sendDelay + _ = _
          rw [List.length_cons, Nat.succ_mul, Nat.add_assoc, Nat.add_comm e.config.sendDelay]
        · rw [h.isComplete]
          simp
        · intro i y hy
          cases i with
          | zero =>
              refine ⟨hop, rfl, ?_⟩
              obtain rfl : x = y := by simpa using hy
              simp [x]
          | succ i =>
              obtain ⟨n, hn, hy⟩ := h.attempt i y (by simpa using hy)
              refine ⟨n, by simpa using hn, hy.trans ?_⟩
              show e.attempt cycle n (s.clock + e.config.sendDelay + _) = _
              rw [Nat.succ_mul, Nat.add_assoc, Nat.add_comm e.config.sendDelay]

/-- **The story of a send pass.**  Attempts, probes awaited, clock and
completeness of every send pass, whatever the network makes of the probes and
wherever the pass is cut short. -/
theorem sendPass_story (e : Engine) (stop : Stop) (cycle : Nat) (hops : List Nat) (s : State)
    (awaited : List Awaited) :
    Story e cycle hops s awaited (e.sendPass stop cycle hops s awaited)
      ((e.sendPass stop cycle hops s awaited).state.sendingsSince s) := by
  obtain ⟨sendings, h⟩ := exists_story e stop cycle hops s awaited
  have hsince :
      (e.sendPass stop cycle hops s awaited).state.sendingsSince s = sendings := by
    simp [State.sendingsSince, h.attempts]
  rwa [hsince]

section Hops

variable {s : State} {awaited : List Awaited} {pass : SendPass} {sendings : List Sending}
  {x y : Sending}

theorem mem_hops {n : Nat} : n ∈ e.hops ↔ 1 ≤ n ∧ n ≤ e.config.maxHops.toNat := by
  rw [hops, List.mem_range'_1]
  omega

/-- After a pass over all positions every awaited probe is owed an answer. -/
theorem sendPass_owes_hops (e : Engine) (stop : Stop) (cycle : Nat)
    (hs : s.ledger.Sound e.config.maxHops.toNat) :
    Owes (e.sendPass stop cycle e.hops s []).state.ledger
      (e.sendPass stop cycle e.hops s []).awaited :=
  sendPass_owes e stop cycle hs (fun _ hn => mem_hops.1 hn) (by simp [Owes])

theorem length_hops : e.hops.length = e.config.maxHops.toNat :=
  List.length_range'

/-- Attempts of a cycle that give the positions their turns in order, with a
pause after each. -/
def InTurn (e : Engine) (cycle : Nat) (began : Duration) (sendings : List Sending) : Prop :=
  ∀ i x, sendings[i]? = some x → i < e.config.maxHops.toNat ∧
    x.attempt = e.attempt cycle (i + 1) (began + i * e.config.sendDelay)

section InTurn

variable {began : Duration}

theorem InTurn.exists_index (h : InTurn e cycle began sendings) (hx : x ∈ sendings) :
    ∃ i, i < sendings.length ∧ i < e.config.maxHops.toNat ∧ sendings[i]? = some x ∧
      x.attempt = e.attempt cycle (i + 1) (began + i * e.config.sendDelay) := by
  obtain ⟨i, hi⟩ := List.getElem?_of_mem hx
  obtain ⟨hlt, hattempt⟩ := h i x hi
  exact ⟨i, (List.getElem?_eq_some_iff.1 hi).1, hlt, hi, hattempt⟩

/-- No position has two turns. -/
theorem InTurn.eq_of_ttl_eq (h : InTurn e cycle began sendings) (hx : x ∈ sendings)
    (hy : y ∈ sendings) (heq : x.attempt.ttl = y.attempt.ttl) : x = y := by
  obtain ⟨i, -, -, hi, hxa⟩ := h.exists_index hx
  obtain ⟨j, -, -, hj, hya⟩ := h.exists_index hy
  rw [hxa, hya] at heq
  obtain rfl : i = j := Nat.succ.inj heq
  exact Option.some.inj (hi.symm.trans hj)

/-- A position fits in a byte. -/
theorem InTurn.ttl_lt (h : InTurn e cycle began sendings) (hx : x ∈ sendings) :
    x.attempt.ttl < 256 := by
  obtain ⟨i, -, hlt, -, hattempt⟩ := h.exists_index hx
  have hmax := e.config.maxHops.toNat_lt
  rw [hattempt]
  show i + 1 < 256
  omega

end InTurn

theorem Story.inTurn (h : Story e cycle e.hops s awaited pass sendings) :
    InTurn e cycle s.clock sendings := by
  intro i x hi
  obtain ⟨hop, hhop, hattempt⟩ := h.attempt i x hi
  rw [hops, List.getElem?_eq_some_iff] at hhop
  obtain ⟨hlt, hhop⟩ := hhop
  rw [List.length_range'] at hlt
  rw [List.getElem_range'] at hhop
  obtain rfl : i + 1 = hop := by omega
  exact ⟨hlt, hattempt⟩

/-- No attempt of a pass comes after its end. -/
theorem Story.instant_le (h : Story e cycle e.hops s awaited pass sendings)
    (hx : x ∈ sendings) : x.attempt.instant ≤ pass.state.clock := by
  obtain ⟨i, hlt, -, -, hattempt⟩ := h.inTurn.exists_index hx
  rw [hattempt, h.clock]
  exact Nat.add_le_add_left (Nat.mul_le_mul_right _ (Nat.le_of_lt hlt)) _

/-- The probes awaited after a pass are those that were sent in it. -/
theorem Story.mem_awaited (h : Story e cycle e.hops s [] pass sendings) {a : Awaited} :
    a ∈ pass.awaited ↔ ∃ x ∈ sendings, x.outcome.isSent = true ∧
      Awaited.ofSending x = a := by
  simp [h.awaited, and_assoc]

end Hops

end PathMeter.Engine
