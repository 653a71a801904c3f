import PathMeter.Engine.Rehearsal
import PathMeter.Proofs.Reachable

/-!
# Whose reply a datagram is

After a send pass the engine reads whatever the socket delivers.  This file
says which datagrams it takes for replies and what it makes of them, for every
reachable state, every set of probes that went out, and every queue of
datagrams and read errors.

A datagram is accepted if it answers a probe sent in this pass and none read
before it answers the same probe.  It is entered for the hop of that probe
with the time since the probe was sent, and all else stays as it was.
-/

namespace PathMeter.Engine

/-- A datagram answers the probe of a cycle that was sent to a hop. -/
def AnswersSent (e : Engine) (cycle : Nat) (sendings : List Sending) (hop : Nat)
    (packet : List UInt8) : Prop :=
  Answers e cycle hop packet ∧ ∃ x ∈ sendings, x.outcome.isSent = true ∧ x.attempt.ttl = hop

/-- A datagram is entered for the hop of the one probe that it answers, with the
time since that probe was sent. -/
def Entered (e : Engine) (sendings : List Sending) (before : State) (l : Listening)
    (r : Read) : Prop :=
  ∃ reply x h,
    Reply.ofDatagram? e.identifier e.config.maxHops r.packet = some reply ∧
    x ∈ sendings ∧ x.outcome.isSent = true ∧ x.attempt.ttl = reply.id.hop.toNat ∧
    (∀ y ∈ sendings, y.attempt.ttl = x.attempt.ttl → y = x) ∧
    x.attempt.instant ≤ r.instant ∧
    before.ledger.hop? x.attempt.ttl = some h ∧
    l.state.ledger.hop? x.attempt.ttl = some
      { h with
        received := h.received + 1
        last := r.instant - x.attempt.instant
        samples := h.samples ++ [r.instant - x.attempt.instant]
        address := some reply.responder
        hostname := if h.address = some reply.responder then h.hostname else none }

/-- What listening makes of the datagrams that it reads, where it begins in a
state `before` after the attempts `sendings` of a send pass. -/
structure Attributed (e : Engine) (cycle : Nat) (sendings : List Sending) (before : State)
    (l : Listening) : Prop where
  /-- The datagrams read are those that the head of the queue delivered. -/
  delivered : ∃ taken, before.queue = taken ++ l.state.queue ∧
    l.reads.map (·.packet) = taken.filterMap Arrival.packet?
  /-- The first answer to each probe that was sent is accepted, and nothing
  else is. -/
  accepted_iff : ∀ earlier r later, l.reads = earlier ++ r :: later →
    (r.verdict.isAccepted = true ↔ ∃ hop, AnswersSent e cycle sendings hop r.packet ∧
      ∀ r' ∈ earlier, ¬ AnswersSent e cycle sendings hop r'.packet)
  /-- Every accepted datagram is entered. -/
  entered : ∀ r ∈ l.reads, r.verdict.isAccepted = true → Entered e sendings before l r
  /-- A hop that no accepted datagram answers for is left alone. -/
  untouched : ∀ n, (∀ r ∈ l.reads, r.verdict.isAccepted = true →
    ¬ Answers e cycle n r.packet) → l.state.ledger.hop? n = before.ledger.hop? n
  /-- Listening sends nothing. -/
  sent : ∀ n, (l.state.ledger.hop? n).map (·.sent) = (before.ledger.hop? n).map (·.sent)
  /-- The accepted datagrams are counted. -/
  accepted : l.accepted = l.reads.countP (·.verdict.isAccepted)
  /-- Every datagram read is either accepted or discarded. -/
  counted : l.accepted + l.discarded = l.reads.length
  /-- No hop is renamed twice. -/
  renamed_nodup : l.renamed.Nodup
  /-- The renamed hops are those with another address than before. -/
  renamed_iff : ∀ n, n ∈ l.renamed ↔
    (l.state.ledger.hop? n).map (·.address) ≠ (before.ledger.hop? n).map (·.address)

variable {e : Engine} {cycle : Nat}

theorem Verdict.exists_of_isAccepted {v : Verdict} (h : v.isAccepted = true) :
    ∃ reply d, v = .accepted reply d := by
  cases v with
  | accepted reply d => exact ⟨reply, d, rfl⟩
  | _ => simp [Verdict.isAccepted] at h

/-- The sends of a hop are counted by send passes alone. -/
theorem Heard.sent {s : State} {awaited : List Awaited} {l : Listening}
    (h : Heard e cycle (.start s awaited) l) (n : Nat) :
    (l.state.ledger.hop? n).map (·.sent) = (s.ledger.hop? n).map (·.sent) := by
  refine h.preserves
    (P := fun s' => (s'.ledger.hop? n).map (·.sent) = (s.ledger.hop? n).map (·.sent))
    (fun _ _ h => h) (fun _ _ h => h) ?_ rfl
  intro s' m ip d hs'
  exact (Ledger.map_hop?_updateHop (fun g => g.sent_recordReply ip d) s'.ledger m n).trans hs'

section Pass

variable {s before : State} {pass : SendPass} {sendings : List Sending} {l : Listening}

/-- Awaited probes and sent probes are the same, so the first answer to a probe
that was sent is the one accepted. -/
theorem Story.accepted_iff (hstory : Story e cycle e.hops s [] pass sendings)
    (hheard : Heard e cycle (.start before pass.awaited) l) {earlier later : List Read} {r : Read}
    (hreads : l.reads = earlier ++ r :: later) :
    r.verdict.isAccepted = true ↔
      ∃ hop, AnswersSent e cycle sendings hop r.packet ∧
        ∀ r' ∈ earlier, ¬ AnswersSent e cycle sendings hop r'.packet := by
  have hsent : ∀ hop, (∃ a ∈ pass.awaited, a.hop = hop) ↔
      ∃ x ∈ sendings, x.outcome.isSent = true ∧ x.attempt.ttl = hop := by
    intro hop
    constructor
    · intro hawaited
      obtain ⟨a, ha, rfl⟩ := hawaited
      obtain ⟨x, hx, hxsent, rfl⟩ := hstory.mem_awaited.1 ha
      exact ⟨x, hx, hxsent, rfl⟩
    · intro hx
      obtain ⟨x, hx, hxsent, rfl⟩ := hx
      exact ⟨_, hstory.mem_awaited.2 ⟨x, hx, hxsent, rfl⟩, rfl⟩
  rw [hheard.accepted_iff hreads]
  constructor
  · intro hfirst
    obtain ⟨hop, hans, ha, hopen⟩ := hfirst
    exact ⟨hop, ⟨hans, (hsent hop).1 ha⟩, fun r' hr' hans' => hopen r' hr' hans'.1⟩
  · intro hfirst
    obtain ⟨hop, ⟨hans, hx⟩, hopen⟩ := hfirst
    exact ⟨hop, hans, (hsent hop).2 hx, fun r' hr' hans' => hopen r' hr' ⟨hans', hx⟩⟩

/-- The probe that an accepted datagram answers, and the entry made for it. -/
theorem Story.entered (hstory : Story e cycle e.hops s [] pass sendings)
    (hheard : Heard e cycle (.start before pass.awaited) l)
    (howes : Owes before.ledger pass.awaited) (hclock : pass.state.clock ≤ before.clock)
    {r : Read} (hr : r ∈ l.reads) (hv : r.verdict.isAccepted = true) :
    Entered e sendings before l r := by
  obtain ⟨reply, d, hv⟩ := Verdict.exists_of_isAccepted hv
  obtain ⟨hreply, -, a, ha, hhop, rfl⟩ := hheard.of_accepted hr hv
  obtain ⟨x, hx, hsent, rfl⟩ := hstory.mem_awaited.1 ha
  obtain ⟨h, hh, hlt⟩ := howes _ ha
  have hinstant : x.attempt.instant ≤ r.instant :=
    Nat.le_trans (hstory.instant_le hx) (Nat.le_trans hclock (hheard.clock_le.2 r hr))
  refine ⟨reply, x, h, hreply, hx, hsent, hhop,
    fun y hy heq => hstory.inTurn.eq_of_ttl_eq hy hx heq, hinstant, hh, ?_⟩
  have hentered := hheard.hop?_entered hr hv
  rw [← hhop, hh, Option.map_some, Hop.recordReply_of_lt hlt] at hentered
  exact hentered

end Pass

/-- **Replies are attributed to the probes that they answer.**  From every
reachable state, with every set of probes sent and every queue, listening
accepts exactly the first answer to each probe, enters it for the hop of that
probe with its round trip, and changes nothing else. -/
theorem replies_attributed (e : Engine) (stop : Stop) (cycle : Nat) (queue : List Arrival)
    {waiting : List Arrival} {asked : List String} {s : State} (hs : Reachable e waiting asked s) :
    Attributed e cycle ((e.sendPass stop cycle e.hops s []).state.sendingsSince s)
      { (e.sendPass stop cycle e.hops s []).state with queue := queue }
      (e.receive cycle { (e.sendPass stop cycle e.hops s []).state with queue := queue }
        (e.sendPass stop cycle e.hops s []).awaited) := by
  have hstory := sendPass_story e stop cycle e.hops s []
  have howes := sendPass_owes_hops e stop cycle hs.sound
  generalize e.sendPass stop cycle e.hops s [] = pass at hstory howes
  have hheard := receiveUntil_heard Listening.isSettled e cycle
    { pass.state with queue := queue } pass.awaited
  obtain ⟨taken, hqueue, hreads⟩ := receiveUntil_queue Listening.isSettled e cycle
    { pass.state with queue := queue } pass.awaited
  obtain ⟨hnodup, hrenamed⟩ := hheard.renamed howes
  constructor
  case delivered =>
    refine ⟨taken, hqueue, ?_⟩
    have hpackets := congrArg (List.map Prod.snd) hreads
    simpa [receive, List.map_filterMap, Function.comp_def] using hpackets
  case accepted_iff => exact fun _ _ _ h => hstory.accepted_iff hheard h
  case entered => exact fun _ hr hv => hstory.entered hheard howes (Nat.le_refl _) hr hv
  case untouched =>
    intro n hn
    apply hheard.hop?_untouched
    intro r hr reply d hv hhop
    have hans := hheard.answers_of_accepted hr hv
    rw [hhop] at hans
    exact hn r hr (by rw [hv]; rfl) hans
  case sent => exact hheard.sent
  case accepted => exact hheard.counts.1
  case counted => exact hheard.counts.2
  case renamed_nodup => exact hnodup
  case renamed_iff => exact hrenamed

/-- A path whose first hop answers every probe twice, and whose second is the
target. -/
def echoingTrial : Engine :=
  trial 2 0 [.plain 1 (5 * Duration.millisecond) ⟨192, 168, 1, 1⟩,
    .plain 1 (6 * Duration.millisecond) ⟨192, 168, 1, 1⟩,
    .plain 2 (20 * Duration.millisecond) ⟨8, 8, 8, 8⟩]

/-- Of the two answers of the first hop one is accepted, of the target's one
too. -/
theorem echoes_attributed_once :
    let s := echoingTrial.start [] []
    let pass := echoingTrial.sendPass .never 0 echoingTrial.hops s []
    let l := echoingTrial.receive 0 { pass.state with queue := pass.state.queue } pass.awaited
    Reachable echoingTrial [] [] s ∧
      Attributed echoingTrial 0 (pass.state.sendingsSince s)
        { pass.state with queue := pass.state.queue } l ∧
      l.accepted = 2 ∧ l.discarded = 1 ∧ l.renamed = [1, 2] :=
  ⟨.start, replies_attributed echoingTrial .never 0 _ .start, by decide +kernel⟩

end PathMeter.Engine
