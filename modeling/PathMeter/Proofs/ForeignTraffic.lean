import Mathlib.Data.List.Forall2
import PathMeter.Engine.Rehearsal
import PathMeter.Proofs.Turns

/-!
# Foreign traffic

A raw socket reads everybody's datagrams.  This file compares two measurements:
one over some network, and one over a network that does the same and delivers,
at any time and in any number, datagrams besides that are no replies to this
run (`AddsNoise`).  They turn out to be the same measurement, told apart only by
the number of datagrams dropped (`foreign_traffic_ignored`).

The two measurements go on side by side.  Between the stages of a run their
clocks agree, and the queue of the second holds that of the first with foreign
deliveries put in (`Alike`).  While they listen the clocks may differ: a foreign
datagram takes the second measurement further in time.  It takes it no further
than to the deadline, and no further than to what the first one reads next, so
the next genuine datagram, or the deadline, brings the clocks together again
(`Overhears.listenUntil`).
-/

namespace PathMeter.Engine

/-! ### What is added -/

/-- A delivery of a datagram that, as far as it is read, is no reply to a probe
of this engine. -/
def Arrival.IsForeign (e : Engine) (a : Arrival) : Prop :=
  ∃ packet, a.packet? = some packet ∧
    Reply.ofDatagram? e.identifier e.config.maxHops packet = none

/-- A list, and the list with elements of one kind put in anywhere. -/
inductive Interspersed {α : Type} (P : α → Prop) : List α → List α → Prop where
  | nil : Interspersed P [] []
  | keep (x : α) {xs ys : List α} (h : Interspersed P xs ys) : Interspersed P (x :: xs) (x :: ys)
  | insert {y : α} {xs ys : List α} (hy : P y) (h : Interspersed P xs ys) :
      Interspersed P xs (y :: ys)

/-- The same outcome, with foreign deliveries put in. -/
inductive Outcome.Noisier (e : Engine) : Outcome → Outcome → Prop where
  | refused : Noisier e .refused .refused
  | failed : Noisier e .failed .failed
  | sent {arrivals arrivals' : List Arrival}
      (h : Interspersed (Arrival.IsForeign e) arrivals arrivals') :
      Noisier e (.sent arrivals) (.sent arrivals')

/-- The same attempt, with foreign deliveries put in after it. -/
structure Sending.Noisier (e : Engine) (x x' : Sending) : Prop where
  attempt : x'.attempt = x.attempt
  outcome : Outcome.Noisier e x.outcome x'.outcome

/-- What became of the attempts, newest first, is what the network makes of
them. -/
def Network.Explains (network : Network) : List Sending → Prop
  | [] => True
  | x :: earlier => x.outcome = network.respond earlier x.attempt ∧ network.Explains earlier

/-- A network that has done what the engine's network has, but for foreign
datagrams that it delivers besides, goes on to do so. -/
def AddsNoise (e : Engine) (network : Network) : Prop :=
  ∀ history history' a, e.network.Explains history → network.Explains history' →
    List.Forall₂ (Sending.Noisier e) history history' →
    Outcome.Noisier e (e.network.respond history a) (network.respond history' a)

/-- The engine with another network around it. -/
def across (e : Engine) (network : Network) : Engine :=
  { e with network := network }

namespace Interspersed

variable {α : Type} {P : α → Prop} {x : α} {xs ys : List α}

theorem mem (h : Interspersed P xs ys) (hx : x ∈ xs) : x ∈ ys := by
  induction h with
  | nil => exact hx
  | keep y _ ih =>
      rcases List.mem_cons.1 hx with rfl | hx
      · exact List.mem_cons_self
      · exact List.mem_cons_of_mem _ (ih hx)
  | insert _ _ ih => exact List.mem_cons_of_mem _ (ih hx)

theorem keep_last (h : Interspersed P xs ys) (x : α) : Interspersed P (xs ++ [x]) (ys ++ [x]) := by
  induction h with
  | nil => exact .keep x .nil
  | keep y _ ih => exact .keep y ih
  | insert hy _ ih => exact .insert hy ih

theorem insert_last (h : Interspersed P xs ys) (hx : P x) : Interspersed P xs (ys ++ [x]) := by
  induction h with
  | nil => exact .insert hx .nil
  | keep y _ ih => exact .keep y ih
  | insert hy _ ih => exact .insert hy ih

end Interspersed

theorem Outcome.Noisier.arrivals {e : Engine} {o o' : Outcome} (h : Outcome.Noisier e o o') :
    Interspersed (Arrival.IsForeign e) o.arrivals o'.arrivals := by
  cases h with
  | refused | failed => exact .nil
  | sent h => exact h

theorem Outcome.Noisier.isSent {e : Engine} {o o' : Outcome} (h : Outcome.Noisier e o o') :
    o'.isSent = o.isSent := by
  cases h <;> rfl

/-! ### Queues -/

section Queues

variable {P : Arrival → Prop} {queue queue' : List Arrival}

theorem enqueue_of_lt {a : Arrival} (h : ∀ b ∈ queue, a.due < b.due) :
    enqueue queue a = a :: queue := by
  cases queue with
  | nil => rfl
  | cons b rest => exact if_pos (h b List.mem_cons_self)

/-- What is queued in both queues takes the same place among the deliveries of
the first. -/
theorem Interspersed.enqueue_keep (h : Interspersed P queue queue') (hin : InOrder queue')
    (a : Arrival) : Interspersed P (enqueue queue a) (enqueue queue' a) := by
  induction h with
  | nil => exact .keep a .nil
  | keep b h ih =>
      unfold enqueue
      split
      · exact .keep a (.keep b h)
      · exact .keep b (ih (List.pairwise_cons.1 hin).2)
  | @insert b xs ys hb h ih =>
      obtain ⟨hfirst, hrest⟩ := List.pairwise_cons.1 hin
      by_cases hlt : a.due < b.due
      · have hfront : ∀ c ∈ xs, a.due < c.due :=
          fun c hc => Nat.lt_of_lt_of_le hlt (hfirst c (h.mem hc))
        rw [enqueue_of_lt hfront, enqueue, if_pos hlt]
        exact .keep a (.insert hb h)
      · rw [enqueue.eq_def (b :: ys)]
        simp only [if_neg hlt]
        exact .insert hb (ih hrest)

theorem Interspersed.enqueue_insert (h : Interspersed P queue queue') {a : Arrival} (ha : P a) :
    Interspersed P queue (enqueue queue' a) := by
  induction h with
  | nil => exact .insert ha .nil
  | keep b h ih =>
      unfold enqueue
      split
      · exact .insert ha (.keep b h)
      · exact .keep b ih
  | insert hb h ih =>
      unfold enqueue
      split
      · exact .insert ha (.insert hb h)
      · exact .insert hb ih

/-- What is put in among the deliveries is put in among the queue. -/
theorem Interspersed.enqueueAll {arrivals arrivals' : List Arrival}
    (harrivals : Interspersed P arrivals arrivals') (h : Interspersed P queue queue')
    (hin : InOrder queue') :
    Interspersed P (arrivals.foldl enqueue queue) (arrivals'.foldl enqueue queue') := by
  induction harrivals generalizing queue queue' with
  | nil => exact h
  | keep a _ ih => exact ih (h.enqueue_keep hin a) (hin.enqueue a)
  | insert ha _ ih => exact ih (h.enqueue_insert ha) (hin.enqueue _)

end Queues

/-! ### Two measurements side by side -/

/-- The same report, but for foreign datagrams that were read and dropped. -/
structure CycleReport.Noisier (e : Engine) (r r' : CycleReport) : Prop where
  cycle : r'.cycle = r.cycle
  began : r'.began = r.began
  sendings : List.Forall₂ (Sending.Noisier e) r.sendings r'.sendings
  isComplete : r'.isComplete = r.isComplete
  reads : Interspersed (fun read : Read => read.verdict = .foreign) r.reads r'.reads
  accepted : r'.accepted = r.accepted
  discarded : r'.discarded + r.reads.length = r.discarded + r'.reads.length
  reached : r'.reached = r.reached

/-- Two states that agree on all that is measured, but for foreign traffic. -/
structure Parallel (e : Engine) (s s' : State) : Prop where
  ledger : s'.ledger = s.ledger
  attempts : List.Forall₂ (Sending.Noisier e) s.attempts s'.attempts
  questions : s'.questions = s.questions
  reports : List.Forall₂ (CycleReport.Noisier e) s.reports s'.reports
  timeline : s'.timeline = s.timeline

/-- Two such states at the same instant, where more foreign deliveries wait in
the second. -/
structure Alike (e : Engine) (network : Network) (s s' : State) : Prop
    extends Parallel e s s' where
  clock : s'.clock = s.clock
  queue : Interspersed (Arrival.IsForeign e) s.queue s'.queue
  inOrder : InOrder s'.queue
  first : e.network.Explains s.attempts
  second : network.Explains s'.attempts

variable {e : Engine} {network : Network} {stop : Stop} {s s' : State}

theorem map_attempt_eq {xs ys : List Sending} (h : List.Forall₂ (Sending.Noisier e) xs ys) :
    ys.map (·.attempt) = xs.map (·.attempt) := by
  induction h with
  | nil => rfl
  | cons hx _ ih => exact congrArg₂ List.cons hx.attempt ih

theorem Parallel.record (h : Parallel e s s') (hclock : s'.clock = s.clock) (l : Ledger) :
    Parallel e (s.record l) (s'.record l) := by
  refine ⟨rfl, h.attempts, h.questions, h.reports, ?_⟩
  show _ :: _ = _ :: _
  rw [hclock, h.timeline]

theorem Parallel.leave (h : Parallel e s s') (queue queue' : List Arrival) :
    Parallel e { s with queue := queue } { s' with queue := queue' } :=
  ⟨h.ledger, h.attempts, h.questions, h.reports, h.timeline⟩

namespace Alike

theorem record (h : Alike e network s s') (l : Ledger) :
    Alike e network (s.record l) (s'.record l) :=
  ⟨h.toParallel.record h.clock l, h.clock, h.queue, h.inOrder, h.first, h.second⟩

theorem wait (h : Alike e network s s') (d : Duration) :
    Alike e network (s.wait d) (s'.wait d) :=
  ⟨⟨h.ledger, h.attempts, h.questions, h.reports, h.timeline⟩, congrArg (· + d) h.clock, h.queue,
    h.inOrder, h.first, h.second⟩

theorem waitUntil (h : Alike e network s s') (t : Duration) :
    Alike e network (s.waitUntil t) (s'.waitUntil t) :=
  ⟨⟨h.ledger, h.attempts, h.questions, h.reports, h.timeline⟩, congrArg (max · t) h.clock, h.queue,
    h.inOrder, h.first, h.second⟩

theorem file (h : Alike e network s s') {r r' : CycleReport} (hr : CycleReport.Noisier e r r') :
    Alike e network (s.file r) (s'.file r') :=
  ⟨⟨h.ledger, h.attempts, h.questions, .cons hr h.reports, h.timeline⟩, h.clock, h.queue,
    h.inOrder, h.first, h.second⟩

theorem finalize (h : Alike e network s s') : Alike e network s.finalize s'.finalize := by
  unfold State.finalize
  rw [h.ledger]
  exact h.record _

/-- Both are told to stop, or none. -/
theorem raised (h : Alike e network s s') : stop.raised s' = stop.raised s := by
  rw [Stop.raised_eq, Stop.raised_eq, h.clock, h.ledger, ← h.attempts.length_eq]

/-! ### The send pass -/

theorem outcome (h : Alike e network s s') (hnetwork : AddsNoise e network) (cycle hop : Nat) :
    Outcome.Noisier e (e.outcome cycle hop s) ((e.across network).outcome cycle hop s') := by
  unfold Engine.outcome
  rw [h.clock]
  exact hnetwork _ _ _ h.first h.second h.attempts

theorem probe (h : Alike e network s s') (hnetwork : AddsNoise e network) (cycle hop : Nat) :
    Alike e network (e.probe cycle hop s) ((e.across network).probe cycle hop s') := by
  have houtcome := h.outcome hnetwork cycle hop
  have hattempt : (e.across network).attempt cycle hop s'.clock = e.attempt cycle hop s.clock := by
    rw [h.clock]
    rfl
  unfold Engine.probe
  dsimp only
  rw [h.ledger]
  apply Alike.record
  refine ⟨⟨rfl, ?_, h.questions, h.reports, h.timeline⟩, h.clock, ?_, h.inOrder.enqueueAll _,
    ⟨rfl, h.first⟩, ⟨rfl, h.second⟩⟩
  · exact .cons ⟨hattempt, houtcome⟩ h.attempts
  · exact houtcome.arrivals.enqueueAll h.queue h.inOrder

/-- The same probes are sent at the same instants. -/
theorem sendPass (h : Alike e network s s') (hnetwork : AddsNoise e network) (stop : Stop)
    (cycle : Nat) (hops : List Nat) (awaited : List Awaited) :
    let pass := e.sendPass stop cycle hops s awaited
    let pass' := (e.across network).sendPass stop cycle hops s' awaited
    Alike e network pass.state pass'.state ∧ pass'.awaited = pass.awaited ∧
      pass'.isComplete = pass.isComplete := by
  induction hops generalizing s s' awaited with
  | nil => exact ⟨h, rfl, rfl⟩
  | cons hop rest ih =>
      have hsent := (h.outcome hnetwork cycle hop).isSent
      simp only [Engine.sendPass, h.raised, hsent, h.clock]
      split
      · exact ⟨h, rfl, rfl⟩
      · exact ih ((h.probe hnetwork cycle hop).wait _) _

end Alike

/-! ### Listening -/

/-- The second has heard what the first has, and foreign datagrams besides. -/
structure Overhears (e : Engine) (l l' : Listening) : Prop where
  state : Parallel e l.state l'.state
  awaited : l'.awaited = l.awaited
  lowest : l'.lowest = l.lowest
  renamed : l'.renamed = l.renamed
  reads : Interspersed (fun read : Read => read.verdict = .foreign) l.reads l'.reads
  accepted : l'.accepted = l.accepted
  discarded : l'.discarded + l.reads.length = l.discarded + l'.reads.length

namespace Overhears

variable {l l' : Listening} {cycle : Nat} {due : Duration} {packet : List UInt8}

theorem waitUntil (h : Overhears e l l') (t t' : Duration) :
    Overhears e { l with state := l.state.waitUntil t }
      { l' with state := l'.state.waitUntil t' } :=
  ⟨⟨h.state.ledger, h.state.attempts, h.state.questions, h.state.reports, h.state.timeline⟩,
    h.awaited, h.lowest, h.renamed, h.reads, h.accepted, h.discarded⟩

theorem wait_second (h : Overhears e l l') (t : Duration) :
    Overhears e l { l' with state := l'.state.waitUntil t } :=
  ⟨⟨h.state.ledger, h.state.attempts, h.state.questions, h.state.reports, h.state.timeline⟩,
    h.awaited, h.lowest, h.renamed, h.reads, h.accepted, h.discarded⟩

theorem isSettled (h : Overhears e l l') : l'.isSettled = l.isSettled := by
  unfold Listening.isSettled Listening.isAnswered
  rw [h.awaited, h.lowest]

theorem note (h : Overhears e l l') (hclock : l'.state.clock = l.state.clock) (due : Duration)
    (packet : List UInt8) (verdict : Verdict) :
    Overhears e (l.note due packet verdict) (l'.note due packet verdict) := by
  refine ⟨h.state, h.awaited, h.lowest, h.renamed, ?_, h.accepted, ?_⟩
  · unfold Listening.note
    rw [hclock]
    exact h.reads.keep_last _
  · have hdiscarded := h.discarded
    simp only [Listening.note, List.length_append, List.length_singleton]
    omega

theorem accept (h : Overhears e l l') (hclock : l'.state.clock = l.state.clock)
    (destination : IPv4) (reply : Reply) (roundTrip : Duration) :
    Overhears e (l.accept destination reply roundTrip)
      (l'.accept destination reply roundTrip) := by
  unfold Listening.accept Listening.changes
  rw [h.state.ledger, h.awaited, h.lowest, h.renamed]
  exact ⟨h.state.record hclock _, rfl, rfl, rfl, h.reads, congrArg (· + 1) h.accepted, h.discarded⟩

theorem discard (h : Overhears e l l') : Overhears e l.discard l'.discard := by
  refine ⟨h.state, h.awaited, h.lowest, h.renamed, h.reads, h.accepted, ?_⟩
  have hdiscarded := h.discarded
  show l'.discarded + 1 + l.reads.length = l.discarded + 1 + l'.reads.length
  omega

/-- A datagram that both read at one instant is taken in alike. -/
theorem take (h : Overhears e l l') (hclock : l'.state.clock = l.state.clock) :
    Overhears e (e.take cycle l due packet) ((e.across network).take cycle l' due packet) := by
  have hjudge : (e.across network).judge cycle l' packet = e.judge cycle l packet := by
    unfold judge
    rw [h.awaited, hclock]
    rfl
  unfold Engine.take
  dsimp only
  rw [hjudge]
  have hnote := h.note hclock due packet (e.judge cycle l packet)
  cases hverdict : e.judge cycle l packet with
  | accepted reply roundTrip =>
      rw [hverdict] at hnote
      exact hnote.accept hclock e.destination reply roundTrip
  | foreign | stale reply | unexpected reply =>
      rw [hverdict] at hnote
      exact hnote.discard

/-- A foreign datagram leaves no trace but in the number dropped. -/
theorem take_foreign (h : Overhears e l l')
    (hpacket : Reply.ofDatagram? e.identifier e.config.maxHops packet = none) :
    Overhears e l ((e.across network).take cycle l' due packet) := by
  have hjudge : (e.across network).judge cycle l' packet = .foreign := by
    have hnone : Reply.ofDatagram? (e.across network).identifier
        (e.across network).config.maxHops packet = none := hpacket
    rw [judge, hnone]
  unfold Engine.take
  dsimp only
  rw [hjudge]
  refine ⟨h.state, h.awaited, h.lowest, h.renamed, h.reads.insert_last rfl, h.accepted, ?_⟩
  have hdiscarded := h.discarded
  simp only [Listening.discard, Listening.note, List.length_append, List.length_singleton]
  omega

end Overhears

theorem exists_of_packet? {a : Arrival} {packet : List UInt8} (h : a.packet? = some packet) :
    ∃ bytes, a.delivery = .datagram bytes ∧ bytes.take readLimit = packet := by
  unfold Arrival.packet? at h
  split at h
  · next bytes hbytes => exact ⟨bytes, hbytes, Option.some.inj h⟩
  · simp at h

/-- Nothing is read when nothing is due in time. -/
theorem listenUntil_of_later {enough : Listening → Bool} {cycle : Nat} {deadline : Duration}
    {queue : List Arrival} {l : Listening} (henough : enough l = false)
    (hlater : ∀ a ∈ queue, max l.state.clock deadline < a.due) :
    e.listenUntil enough cycle deadline queue l =
      (queue, { l with state := l.state.waitUntil deadline }) := by
  cases queue with
  | nil => simp [listenUntil, henough]
  | cons a rest =>
      have hlt := hlater a List.mem_cons_self
      simp [listenUntil, henough, Nat.not_le.2 hlt]

theorem listenUntil_of_enough {enough : Listening → Bool} {cycle : Nat} {deadline : Duration}
    {queue : List Arrival} {l : Listening} (henough : enough l = true) :
    e.listenUntil enough cycle deadline queue l = (queue, l) := by
  cases queue <;> simp [listenUntil, henough]

/-- A datagram due in time is taken in, and the listening goes on after it. -/
theorem listenUntil_of_packet {enough : Listening → Bool} {cycle : Nat} {deadline : Duration}
    {a : Arrival} {rest : List Arrival} {packet : List UInt8} {l : Listening}
    (henough : enough l = false) (hdue : a.due ≤ max l.state.clock deadline)
    (hpacket : a.packet? = some packet) :
    e.listenUntil enough cycle deadline (a :: rest) l =
      e.listenUntil enough cycle deadline rest
        (e.take cycle { l with state := l.state.waitUntil a.due } a.due packet) := by
  obtain ⟨bytes, hbytes, rfl⟩ := exists_of_packet? hpacket
  rw [listenUntil, if_neg (by simp [henough]), if_pos hdue]
  dsimp only
  rw [hbytes]

/-- When the first of a queue in order is not due yet, nothing of it is. -/
theorem InOrder.forall_later {t : Duration} {a : Arrival} {rest : List Arrival}
    (h : InOrder (a :: rest)) (hlater : t < a.due) : ∀ b ∈ a :: rest, t < b.due :=
  List.forall_mem_cons.2
    ⟨hlater, fun b hb => Nat.lt_of_lt_of_le hlater ((List.pairwise_cons.1 h).1 b hb)⟩

/-- Two clocks between which it makes no difference to wait for the deadline, or
for what the queue has left. -/
structure Ahead (deadline : Duration) (queue : List Arrival) (t t' : Duration) : Prop where
  deadline : max t' deadline = max t deadline
  due : ∀ a ∈ queue, max t' a.due = max t a.due

namespace Ahead

variable {deadline t t' : Duration} {a : Arrival} {rest : List Arrival}

theorem of_eq (queue : List Arrival) (h : t' = t) : Ahead deadline queue t t' :=
  h ▸ ⟨rfl, fun _ _ => rfl⟩

/-- Only the second waits for the first of the queue, which is due in time. -/
theorem wait_second (h : Ahead deadline (a :: rest) t t') (hin : InOrder (a :: rest))
    (hread : a.due ≤ max t' deadline) : Ahead deadline rest t (max t' a.due) := by
  constructor
  · calc max (max t' a.due) deadline
        = max t' deadline := by rw [Nat.max_right_comm, Nat.max_eq_left hread]
      _ = max t deadline := h.deadline
  · intro b hb
    have hfirst : a.due ≤ b.due := (List.pairwise_cons.1 hin).1 b hb
    calc max (max t' a.due) b.due
        = max t' b.due := by rw [Nat.max_assoc, Nat.max_eq_right hfirst]
      _ = max t b.due := h.due b (List.mem_cons_of_mem _ hb)

end Ahead

/-- **Listening with foreign datagrams in the queue.**  While more is worth
waiting for, the clock of the second may be ahead (`Ahead`).  In the end the
clocks agree. -/
theorem Overhears.listenUntil (network : Network) {enough : Listening → Bool}
    (hcongr : ∀ {l l'}, Overhears e l l' → enough l' = enough l) (cycle : Nat)
    (deadline : Duration) {queue queue' : List Arrival}
    (hqueue : Interspersed (Arrival.IsForeign e) queue queue') (hin : InOrder queue')
    {l l' : Listening} (h : Overhears e l l')
    (hahead : Ahead deadline queue' l.state.clock l'.state.clock)
    (hdone : enough l = true → l'.state.clock = l.state.clock) :
    let ended := e.listenUntil enough cycle deadline queue l
    let ended' := (e.across network).listenUntil enough cycle deadline queue' l'
    Overhears e ended.2 ended'.2 ∧ ended'.2.state.clock = ended.2.state.clock ∧
      Interspersed (Arrival.IsForeign e) ended.1 ended'.1 ∧ InOrder ended'.1 := by
  induction hqueue generalizing l l' with
  | nil =>
      unfold Engine.listenUntil
      rw [hcongr h]
      split
      · next henough => exact ⟨h, hdone henough, .nil, hin⟩
      · exact ⟨h.waitUntil _ _, hahead.deadline, .nil, hin⟩
  | @keep a xs ys hrest ih =>
      have hin' := (List.pairwise_cons.1 hin).2
      have hnow := hahead.due a List.mem_cons_self
      unfold Engine.listenUntil
      rw [hcongr h, hahead.deadline]
      split
      · next henough => exact ⟨h, hdone henough, .keep a hrest, hin⟩
      · split
        · dsimp only
          split
          · exact ⟨⟨(h.waitUntil a.due a.due).state, h.awaited, h.lowest, h.renamed, h.reads,
              h.accepted, h.discarded⟩, hnow, hrest, hin'⟩
          · next bytes hbytes =>
            have hsame : ((e.across network).take cycle
                { l' with state := l'.state.waitUntil a.due }
                a.due (bytes.take readLimit)).state.clock =
                (e.take cycle { l with state := l.state.waitUntil a.due }
                  a.due (bytes.take readLimit)).state.clock := by
              rw [state_clock_take, state_clock_take]
              exact hnow
            apply ih hin' ((h.waitUntil a.due a.due).take hnow)
            · exact .of_eq ys hsame
            · exact fun _ => hsame
        · exact ⟨h.waitUntil _ _, hahead.deadline, .keep a hrest, hin⟩
  | @insert a xs ys ha hrest ih =>
      have hin' := (List.pairwise_cons.1 hin).2
      obtain ⟨packet, hpacket, hforeign⟩ := ha
      cases henough : enough l with
      | true =>
          dsimp only
          rw [listenUntil_of_enough henough, listenUntil_of_enough ((hcongr h).trans henough)]
          exact ⟨h, hdone henough, .insert ⟨packet, hpacket, hforeign⟩ hrest, hin⟩
      | false =>
          have henough' : enough l' = false := (hcongr h).trans henough
          dsimp only
          by_cases hread : a.due ≤ max l'.state.clock deadline
          · rw [listenUntil_of_packet henough' hread hpacket]
            apply ih hin' ((h.wait_second a.due).take_foreign hforeign)
            · rw [state_clock_take]
              exact hahead.wait_second hin hread
            · simp [henough]
          · have hlater := hin.forall_later (Nat.lt_of_not_le hread)
            have hlater' : ∀ b ∈ xs, max l.state.clock deadline < b.due :=
              fun b hb => hahead.deadline ▸ hlater b (List.mem_cons_of_mem _ (hrest.mem hb))
            rw [listenUntil_of_later henough hlater', listenUntil_of_later henough' hlater]
            exact ⟨h.waitUntil _ _, hahead.deadline, .insert ⟨packet, hpacket, hforeign⟩ hrest, hin⟩

namespace Alike

/-- After listening the two are at the same instant again. -/
theorem receive (h : Alike e network s s') (cycle : Nat) (awaited : List Awaited) :
    let l := e.receive cycle s awaited
    let l' := (e.across network).receive cycle s' awaited
    Overhears e l l' ∧ Alike e network l.state l'.state := by
  have hstart : Overhears e (.start s awaited) (.start s' awaited) :=
    ⟨h.toParallel, rfl, rfl, rfl, .nil, rfl, rfl⟩
  obtain ⟨hend, hclock, hqueue, hin⟩ := hstart.listenUntil network Overhears.isSettled cycle
    (s.clock + e.config.timeout) h.queue h.inOrder (.of_eq _ h.clock) (fun _ => h.clock)
  have hfirst : (e.receive cycle s awaited).state.attempts = s.attempts :=
    (receiveUntil_heard ..).attempts
  have hsecond : ((e.across network).receive cycle s' awaited).state.attempts = s'.attempts :=
    (receiveUntil_heard ..).attempts
  unfold Engine.receive receiveUntil at hfirst hsecond ⊢
  rw [h.clock] at hsecond ⊢
  exact ⟨⟨hend.state.leave _ _, hend.awaited, hend.lowest, hend.renamed, hend.reads, hend.accepted,
    hend.discarded⟩, hend.state.leave _ _, hclock, hqueue, hin,
    hfirst ▸ h.first, hsecond ▸ h.second⟩

end Alike

/-! ### Names -/

/-- One step of looking up. -/
theorem lookUpFrom_eq (e : Engine) (stop : Stop) (deadline : Duration) (hops : List Nat)
    (active : List Lookup) (s : State) :
    e.lookUpFrom stop deadline hops active s =
      match nextStart hops active with
      | some (hop, rest) =>
        match (s.ledger.hop? hop).bind (·.address) with
        | none => e.lookUpFrom stop deadline rest active s
        | some ip =>
          e.lookUpFrom stop deadline rest (active ++ [(e.ask s hop ip).1]) (e.ask s hop ip).2
      | none =>
        if active = [] then s
        else
          match firstAnswered active with
          | none => s.waitUntil (stop.cut deadline)
          | some (t, l, others) =>
            if t ≤ deadline ∧ stop.isAfter t then
              e.lookUpFrom stop deadline hops others (enterName l (s.waitUntil t))
            else s.waitUntil (stop.cut deadline) := by
  rw [lookUpFrom.eq_def]
  split
  · next hop rest hn =>
    dsimp only
    generalize nextStart hops active = next at hn ⊢
    subst hn
    rfl
  · next hn =>
    simp only [hn]
    split
    · rfl
    · split <;> next hfirst => simp only [hfirst]

namespace Alike

theorem ask (h : Alike e network s s') (hop : Nat) (ip : IPv4) :
    ((e.across network).ask s' hop ip).1 = (e.ask s hop ip).1 ∧
      Alike e network (e.ask s hop ip).2 ((e.across network).ask s' hop ip).2 := by
  unfold Engine.ask
  dsimp only
  rw [h.clock, h.questions]
  exact ⟨rfl, ⟨h.ledger, h.attempts, rfl, h.reports, h.timeline⟩, rfl, h.queue, h.inOrder,
    h.first, h.second⟩

theorem enterName (h : Alike e network s s') (l : Lookup) :
    Alike e network (enterName l s) (Engine.enterName l s') := by
  unfold Engine.enterName
  split
  · exact h
  · rw [h.ledger]
    exact h.record _

/-- The same questions are asked at the same instants. -/
theorem lookUpFrom (h : Alike e network s s') (deadline : Duration) (hops : List Nat)
    (active : List Lookup) :
    Alike e network (e.lookUpFrom stop deadline hops active s)
      ((e.across network).lookUpFrom stop deadline hops active s') := by
  fun_induction Engine.lookUpFrom e stop deadline hops active s generalizing s' with
  | case1 waiting active s hop rest hn _ haddress ih =>
      rw [lookUpFrom_eq (e.across network), hn, h.ledger]
      dsimp only
      rw [haddress]
      exact ih h
  | case2 waiting active s hop rest hn _ address haddress l t hasked ih =>
      obtain ⟨hl, ht⟩ := h.ask hop address
      rw [lookUpFrom_eq (e.across network), hn, h.ledger]
      dsimp only
      rw [haddress]
      dsimp only
      rw [hl, hasked]
      exact ih (by rwa [hasked] at ht)
  | case3 waiting s hn =>
      rw [lookUpFrom_eq (e.across network), hn]
      exact h
  | case4 waiting active s hn hactive hnone =>
      rw [lookUpFrom_eq (e.across network), hn]
      dsimp only
      rw [if_neg hactive, hnone]
      exact h.waitUntil _
  | case5 waiting active s hn hactive t l others hfirst _ hin ih =>
      rw [lookUpFrom_eq (e.across network), hn]
      dsimp only
      rw [if_neg hactive, hfirst]
      dsimp only
      rw [if_pos hin]
      exact ih ((h.waitUntil t).enterName l)
  | case6 waiting active s hn hactive t l others hfirst _ hin =>
      rw [lookUpFrom_eq (e.across network), hn]
      dsimp only
      rw [if_neg hactive, hfirst]
      dsimp only
      rw [if_neg hin]
      exact h.waitUntil _

/-- The same names are found. -/
theorem nameHops {l l' : Listening} (h : Alike e network l.state l'.state) (stop : Stop)
    (hrenamed : l'.renamed = l.renamed) :
    Alike e network (e.nameHops stop l) ((e.across network).nameHops stop l') := by
  unfold Engine.nameHops lookUp
  rw [hrenamed, h.raised, h.clock]
  show Alike e network _ (if e.config.resolveNames then _ else _)
  split
  · split
    · exact h
    · exact h.lookUpFrom _ _ _
  · exact h

end Alike

/-! ### Whole measurements -/

/-- What is heard is added to the report. -/
theorem CycleReport.Noisier.addTo {r r' : CycleReport} (h : CycleReport.Noisier e r r')
    {l l' : Listening} (hl : Overhears e l l') :
    CycleReport.Noisier e (l.addTo r) (l'.addTo r') :=
  ⟨h.cycle, h.began, h.sendings, h.isComplete, hl.reads, hl.accepted, hl.discarded,
    congrArg Option.isSome hl.lowest⟩

namespace Alike

theorem passOf (h : Alike e network s s') (hnetwork : AddsNoise e network) (stop : Stop) :
    Alike e network (e.passOf stop s).state ((e.across network).passOf stop s').state ∧
      ((e.across network).passOf stop s').awaited = (e.passOf stop s).awaited ∧
      ((e.across network).passOf stop s').isComplete = (e.passOf stop s).isComplete := by
  unfold Engine.passOf
  rw [h.ledger]
  exact h.sendPass hnetwork _ _ _ _

/-- The attempts of the two send passes are the same. -/
theorem report (h : Alike e network s s') (hnetwork : AddsNoise e network) (stop : Stop) :
    CycleReport.Noisier e ((e.passOf stop s).report s.ledger.cycles s)
      (((e.across network).passOf stop s').report s'.ledger.cycles s') := by
  obtain ⟨hpass, -, hcomplete⟩ := h.passOf hnetwork stop
  refine ⟨congrArg Ledger.cycles h.ledger, h.clock, ?_, hcomplete, .nil, rfl, rfl, rfl⟩
  unfold SendPass.report State.sendingsSince
  rw [← hpass.attempts.length_eq, ← h.attempts.length_eq]
  exact List.rel_reverse (List.forall₂_take _ hpass.attempts)

/-- **One cycle goes like the other**, and they leave the same report but for
the foreign datagrams. -/
theorem cycle (h : Alike e network s s') (hnetwork : AddsNoise e network) (stop : Stop) :
    Alike e network (e.cycle stop s).state ((e.across network).cycle stop s').state ∧
      ((e.across network).cycle stop s').isComplete = (e.cycle stop s).isComplete := by
  obtain ⟨hpass, hawaited, hcomplete⟩ := h.passOf hnetwork stop
  have hreport := h.report hnetwork stop
  by_cases hdone : (e.passOf stop s).isComplete = true
  · obtain ⟨hheard, hstate⟩ := hpass.receive s.ledger.cycles
      (e.passOf stop s).awaited
    have hnamed := hstate.nameHops stop hheard.renamed
    have hheardIn : (e.across network).heardIn stop s' = (e.across network).receive s.ledger.cycles
        ((e.across network).passOf stop s').state (e.passOf stop s).awaited := by
      unfold heardIn
      rw [h.ledger, hawaited]
    rw [cycle_of_complete hdone, cycle_of_complete (hcomplete.trans hdone), hheardIn]
    refine ⟨(hnamed.file ?_).finalize, rfl⟩
    unfold cycleReport
    rw [if_pos hdone, if_pos (hcomplete.trans hdone), hheardIn]
    exact hreport.addTo hheard
  · have hcut : ¬ ((e.across network).passOf stop s').isComplete = true := by rwa [hcomplete]
    rw [cycle_of_cut hdone, cycle_of_cut hcut]
    refine ⟨(hpass.file ?_).finalize, rfl⟩
    unfold cycleReport
    rw [if_neg hdone, if_neg hcut]
    exact hreport

theorem closed (h : Alike e network s s') (hnetwork : AddsNoise e network) (stop : Stop)
    (mark : Duration) :
    Alike e network (e.closed stop mark s) ((e.across network).closed stop mark s') := by
  have hcycle := (h.cycle hnetwork stop).1
  unfold Engine.closed
  rw [hcycle.ledger, hcycle.clock]
  exact hcycle.record _

theorem pause (h : Alike e network s s') (stop : Stop) :
    Alike e network (e.pause stop s).1 ((e.across network).pause stop s').1 ∧
      ((e.across network).pause stop s').2 = (e.pause stop s).2 := by
  unfold Engine.pause
  rw [h.raised, h.clock]
  split
  · exact ⟨h, rfl⟩
  · split
    · show Alike e network _ (if _ ≤ s.clock + e.config.interval then _ else _ : State × Bool).1 ∧
        (if _ ≤ s.clock + e.config.interval then _ else _ : State × Bool).2 = _
      split
      · exact ⟨h.waitUntil _, rfl⟩
      · exact ⟨h.wait _, rfl⟩
    · exact ⟨h.wait _, rfl⟩

/-- Turn for turn the two runs show their onlookers the same. -/
theorem cycles (h : Alike e network s s') (hnetwork : AddsNoise e network) (stop : Stop)
    {σ : Type} (onCycle : σ → Snapshot → σ) (turns : Nat) (mark : Duration) (completed : Nat)
    (seen : σ) :
    let r := e.cycles stop onCycle turns mark completed s seen
    let r' := (e.across network).cycles stop onCycle turns mark completed s' seen
    Alike e network r.state r'.state ∧ r'.seen = r.seen ∧ r'.ending = r.ending := by
  induction turns generalizing s s' mark completed seen with
  | zero => exact ⟨h, rfl, rfl⟩
  | succ turns ih =>
      obtain ⟨hcycle, hcomplete⟩ := h.cycle hnetwork stop
      have hclosed := h.closed hnetwork stop mark
      obtain ⟨hpause, htold⟩ := hclosed.pause stop
      have hsnapshot : ((e.across network).closed stop mark s').snapshot =
          (e.closed stop mark s).snapshot := congrArg Ledger.snapshot hclosed.ledger
      have henough : ∀ completed, (e.across network).isEnough completed = e.isEnough completed :=
        fun _ => rfl
      simp only [cycles_succ, h.raised, hcomplete, htold, hsnapshot, henough, hclosed.clock]
      split
      · exact ⟨h, rfl, rfl⟩
      · split
        · split
          · exact ⟨hclosed, rfl, rfl⟩
          · split
            · exact ⟨hpause, rfl, rfl⟩
            · exact ih hpause _ _ _
        · exact ⟨hcycle, rfl, rfl⟩

theorem run (h : Alike e network s s') (hnetwork : AddsNoise e network) (stop : Stop)
    (patience : Nat) {σ : Type} (onCycle : σ → Snapshot → σ) (seen : σ) :
    let r := e.run stop patience onCycle s seen
    let r' := (e.across network).run stop patience onCycle s' seen
    Alike e network r.state r'.state ∧ r'.seen = r.seen ∧ r'.ending = r.ending := by
  have hmark : Alike e network (e.markStart s) ((e.across network).markStart s') := by
    refine markStart_cases (fun hcycles => ?_) fun hcycles => ?_
    · rw [markStart, h.ledger, h.clock, if_pos hcycles]
      exact h.record _
    · rw [markStart, h.ledger, if_neg hcycles]
      exact h
  unfold Engine.run
  rw [h.clock]
  exact hmark.cycles hnetwork _ _ _ _ _ _

end Alike

/-- Whatever visits an engine has, its state and that of the engine amid
foreign traffic are alike. -/
theorem history_alike (hnetwork : AddsNoise e network) {waiting waiting' : List Arrival}
    (hwaiting : Interspersed (Arrival.IsForeign e) waiting waiting') (asked : List String)
    (visits : List Visit) :
    Alike e network (e.history waiting asked visits)
      ((e.across network).history waiting' asked visits) := by
  have hstart : Alike e network (e.start waiting asked) ((e.across network).start waiting' asked) :=
    ⟨⟨rfl, .nil, rfl, .nil, rfl⟩, rfl, hwaiting.enqueueAll .nil .nil, InOrder.enqueueAll .nil _,
      trivial, trivial⟩
  unfold history
  generalize e.start waiting asked = s at hstart ⊢
  generalize (e.across network).start waiting' asked = s' at hstart ⊢
  induction visits generalizing s s' with
  | nil => exact hstart
  | cons v visits ih => exact ih _ _ ((hstart.wait v.rest).run hnetwork _ _ _ _).1

/-- **Foreign traffic cannot disturb a measurement.**  Take any engine, and the
same engine amid foreign datagrams, any number of them, waiting from the start
or delivered at any time.  After any visits, a further run of the two shows the
same snapshots to any onlooker, ends in the same way and at the same instant,
and leaves the same ledger, known at the same instants.  All runs so far have
sent the same probes at the same instants and asked the same questions, and
their reports tell the same but for foreign datagrams that were read and
dropped. -/
theorem foreign_traffic_ignored (e : Engine) {network : Network} (hnetwork : AddsNoise e network)
    {waiting waiting' : List Arrival}
    (hwaiting : Interspersed (Arrival.IsForeign e) waiting waiting') (asked : List String)
    (visits : List Visit) (v : Visit) {σ : Type} (onCycle : σ → Snapshot → σ) (seen : σ) :
    let s := (e.history waiting asked visits).wait v.rest
    let s' := ((e.across network).history waiting' asked visits).wait v.rest
    let r := e.run v.stop v.patience onCycle s seen
    let r' := (e.across network).run v.stop v.patience onCycle s' seen
    Alike e network s s' ∧ Alike e network r.state r'.state ∧
      r'.seen = r.seen ∧ r'.state.snapshot = r.state.snapshot ∧ r'.ending = r.ending ∧
      r'.state.attempts.map (·.attempt) = r.state.attempts.map (·.attempt) := by
  intro s s' r r'
  have hs : Alike e network s s' := (history_alike hnetwork hwaiting asked visits).wait v.rest
  obtain ⟨hr, hseen, hending⟩ := hs.run hnetwork v.stop v.patience onCycle seen
  exact ⟨hs, hr, hseen, congrArg Ledger.snapshot hr.ledger, hending, map_attempt_eq hr.attempts⟩

/-- A path of two hops, both answered for. -/
def plainTrial : Engine :=
  trial 2 0 [.plain 1 (5 * Duration.millisecond) ⟨192, 168, 1, 1⟩,
    .plain 2 (10 * Duration.millisecond) ⟨8, 8, 8, 8⟩]

/-- The same network, with an empty datagram sent ahead of the answers to every
probe and two more behind them, one of them with the last answer. -/
def loudNetwork : Network where
  respond history a :=
    match plainTrial.network.respond history a with
    | .sent arrivals =>
      .sent (⟨a.instant, .datagram []⟩ :: arrivals ++
        [⟨a.instant + 7 * Duration.millisecond, .datagram [0x45]⟩,
          ⟨a.instant + 10 * Duration.millisecond, .datagram []⟩])
    | outcome => outcome

theorem addsNoise_loudNetwork : AddsNoise plainTrial loudNetwork := by
  have hempty : ∀ t, Arrival.IsForeign plainTrial ⟨t, .datagram []⟩ := fun _ => ⟨[], rfl, rfl⟩
  have hshort : ∀ t, Arrival.IsForeign plainTrial ⟨t, .datagram [0x45]⟩ :=
    fun _ => ⟨[0x45], rfl, rfl⟩
  have hbehind : ∀ (arrivals : List Arrival) (t t' : Duration),
      Interspersed (Arrival.IsForeign plainTrial) arrivals
        (arrivals ++ [⟨t, .datagram [0x45]⟩, ⟨t', .datagram []⟩]) := by
    intro arrivals t t'
    induction arrivals with
    | nil => exact .insert (hshort t) (.insert (hempty t') .nil)
    | cons a _ ih => exact .keep a ih
  intro history history' a _ _ _
  show Outcome.Noisier plainTrial (plainTrial.network.respond history' a) _
  unfold loudNetwork
  dsimp only
  cases plainTrial.network.respond history' a with
  | refused => exact .refused
  | failed => exact .failed
  | sent arrivals => exact .sent (.insert (hempty _) (hbehind _ _ _))

/-- Six foreign datagrams are read and dropped, and the figures are the same. -/
theorem foreign_traffic_dropped :
    let v : Visit := ⟨0, .never, 0⟩
    let r := plainTrial.runCollecting v.stop v.patience ((plainTrial.history [] [] []).wait v.rest)
    let r' := (plainTrial.across loudNetwork).runCollecting v.stop v.patience
      (((plainTrial.across loudNetwork).history [⟨0, .datagram []⟩] [] []).wait v.rest)
    AddsNoise plainTrial loudNetwork ∧
      Interspersed (Arrival.IsForeign plainTrial) [] [⟨0, .datagram []⟩] ∧
      r.state.reports.map (·.discarded) = [0] ∧ r'.state.reports.map (·.discarded) = [6] ∧
      r'.seen = r.seen ∧ r'.state.clock = r.state.clock := by
  intro v r r'
  have hwaiting : Interspersed (Arrival.IsForeign plainTrial) [] [⟨0, .datagram []⟩] :=
    .insert ⟨[], rfl, rfl⟩ .nil
  obtain ⟨-, hr, hseen, -⟩ := foreign_traffic_ignored plainTrial addsNoise_loudNetwork hwaiting []
    [] v (fun seen snapshot => seen ++ [snapshot]) []
  exact ⟨addsNoise_loudNetwork, hwaiting, by decide +kernel, by decide +kernel, hseen, hr.clock⟩

end PathMeter.Engine
