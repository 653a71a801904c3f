import Mathlib.Order.Bounds.Defs
import PathMeter.Proofs.EarlyStop
import PathMeter.Proofs.Schedule

/-!
# How long the engine waits

Listening may end for three reasons: nothing is left to wait for, a reading
fails, or the time is up.  Each of them is a matter of what the queue holds by an
instant, and can be said without the loop: the datagrams that are due by then
(`packetsBy`) answer every probe that was sent or leave only hops behind one that
the target answered for (`NothingLeft`), or a failing read is due by then
(`FailsBy`).

Listening ends at the first instant at which one of the three is the case
(`listenUntil_isLeast`), neither before nor after.  The induction is on the
queue.  A delivery splits time in two: before it is due nothing has changed since
the delivery before, and from then on it is one more datagram heard.

Cycles and runs are as long as their parts, so their lengths are bounded without
regard to what the network and the name service do (`cycle_within_limit`,
`Turns.within_limit`).
-/

namespace PathMeter.Engine

/-- The datagrams of a queue that are due by an instant, as far as they are
read. -/
def packetsBy (queue : List Arrival) (t : Duration) : List (List UInt8) :=
  (queue.filter fun a => decide (a.due ≤ t)).filterMap Arrival.packet?

/-- A failing read is due by an instant. -/
def FailsBy (queue : List Arrival) (t : Duration) : Prop :=
  ∃ a ∈ queue, a.due ≤ t ∧ a.delivery = .failure

/-- The first of some datagrams that answers the probe to a hop is one of the
target's. -/
def TargetFirst (e : Engine) (cycle hop : Nat) (packets : List (List UInt8)) : Prop :=
  ∃ earlier packet later reply, packets = earlier ++ packet :: later ∧
    Reply.ofDatagram? e.identifier e.config.maxHops packet = some reply ∧
    reply.id.cycle.toNat = cycle % 256 ∧ reply.id.hop.toNat = hop ∧
    reply.responder = e.destination ∧ ∀ p ∈ earlier, ¬ Answers e cycle hop p

/-- Every awaited probe is answered by some datagrams, or goes to a hop behind one
that the target answered for. -/
def NothingLeft (e : Engine) (cycle : Nat) (awaited : List Awaited)
    (packets : List (List UInt8)) : Prop :=
  ∀ a ∈ awaited, (∃ p ∈ packets, Answers e cycle a.hop p) ∨
    ∃ b ∈ awaited, b.hop < a.hop ∧ TargetFirst e cycle b.hop packets

variable {e : Engine} {cycle : Nat} {awaited : List Awaited} {s : State}

/-! ### Nothing left to wait for -/

theorem TargetFirst.append {hop : Nat} {packets : List (List UInt8)}
    (h : TargetFirst e cycle hop packets) (more : List (List UInt8)) :
    TargetFirst e cycle hop (packets ++ more) := by
  obtain ⟨earlier, packet, later, reply, hsplit, hfirst⟩ := h
  refine ⟨earlier, packet, later ++ more, reply, ?_, hfirst⟩
  rw [hsplit, List.append_assoc, List.cons_append]

/-- What is heard later takes no answer back. -/
theorem NothingLeft.append {packets : List (List UInt8)}
    (h : NothingLeft e cycle awaited packets) (more : List (List UInt8)) :
    NothingLeft e cycle awaited (packets ++ more) := by
  intro a ha
  rcases h a ha with ⟨p, hp, hans⟩ | ⟨b, hb, hlt, hfirst⟩
  · exact Or.inl ⟨p, List.mem_append_left _ hp, hans⟩
  · exact Or.inr ⟨b, hb, hlt, hfirst.append more⟩

/-- The datagrams read so far. -/
def Listening.packets (l : Listening) : List (List UInt8) :=
  l.reads.map (·.packet)

/-- A datagram of the target's is accepted for a hop just when it is the first one
that answers an awaited probe to this hop. -/
theorem Heard.targetAnswers_iff {l : Listening} (h : Heard e cycle (.start s awaited) l)
    {n : Nat} :
    TargetAnswers e l n ↔ (∃ b ∈ awaited, b.hop = n) ∧ TargetFirst e cycle n l.packets := by
  constructor
  · intro htarget
    obtain ⟨r, hr, haccepted, reply, hreply, hdest, hhop⟩ := htarget
    obtain ⟨earlier, later, hreads⟩ := List.append_of_mem hr
    obtain ⟨hop, hans, hawaited, hopen⟩ := (h.accepted_iff hreads).1 haccepted
    obtain ⟨reply', hsome, hcycle, hhop'⟩ := hans
    obtain rfl := Option.some.inj (hreply.symm.trans hsome)
    obtain rfl : n = hop := hhop.symm.trans hhop'
    refine ⟨hawaited, earlier.map (·.packet), r.packet, later.map (·.packet), reply, ?_, hreply,
      hcycle, hhop, hdest, ?_⟩
    · rw [Listening.packets, hreads, List.map_append, List.map_cons]
    · intro p hp
      obtain ⟨r', hr', rfl⟩ := List.mem_map.1 hp
      exact hopen r' hr'
  · intro hboth
    obtain ⟨hawaited, earlier, packet, later, reply, hsplit, hreply, hcycle, hhop, hdest,
      hopen⟩ := hboth
    obtain ⟨before, rest, hreads, rfl, hrest⟩ := List.map_eq_append_iff.1 hsplit
    obtain ⟨r, after, rfl, rfl, -⟩ := List.map_eq_cons_iff.1 hrest
    have haccepted : r.verdict.isAccepted = true :=
      (h.accepted_iff hreads).2 ⟨n, ⟨reply, hreply, hcycle, hhop⟩, hawaited,
        fun r' hr' => hopen _ (List.mem_map_of_mem hr')⟩
    refine ⟨r, ?_, haccepted, reply, hreply, hdest, hhop⟩
    rw [hreads]
    exact List.mem_append_right _ List.mem_cons_self

/-- **The test that ends listening** finds out whether anything is left to wait
for. -/
theorem Heard.isSettled_iff {l : Listening} (h : Heard e cycle (.start s awaited) l) :
    l.isSettled = true ↔ NothingLeft e cycle awaited l.packets := by
  have hopen : ∀ {a : Awaited}, a ∈ awaited → a ∉ l.awaited →
      ∃ p ∈ l.packets, Answers e cycle a.hop p := by
    intro a ha hnot
    refine Classical.byContradiction fun hnone => hnot (h.mem_awaited_iff.2 ⟨ha, ?_⟩)
    exact fun r hr hans => hnone ⟨r.packet, List.mem_map_of_mem hr, hans⟩
  have hclosed : ∀ {a : Awaited}, a ∈ l.awaited → ¬ ∃ p ∈ l.packets, Answers e cycle a.hop p := by
    rintro a ha ⟨p, hp, hans⟩
    obtain ⟨r, hr, rfl⟩ := List.mem_map.1 hp
    exact (h.mem_awaited_iff.1 ha).2 r hr hans
  rw [Listening.isSettled_iff]
  constructor
  · intro hsettled a ha
    by_cases hwaits : a ∈ l.awaited
    · rcases hsettled with hempty | ⟨d, hd⟩
      · simp [List.isEmpty_iff.1 hempty] at hwaits
      · obtain ⟨⟨b, hb, hbd⟩, hfirst⟩ := h.targetAnswers_iff.1 (h.lowest.2 d hd.lowest).1
        subst hbd
        exact Or.inr ⟨b, hb, hd.behind a hwaits, hfirst⟩
    · exact Or.inl (hopen ha hwaits)
  · intro hnothing
    have hbehind : ∀ a ∈ l.awaited, ∃ n, n < a.hop ∧ TargetAnswers e l n := by
      intro a ha
      obtain ⟨b, hb, hlt, hfirst⟩ :=
        (hnothing a (h.mem_awaited_iff.1 ha).1).resolve_left (hclosed ha)
      exact ⟨b.hop, hlt, h.targetAnswers_iff.2 ⟨⟨b, hb, rfl⟩, hfirst⟩⟩
    cases hlowest : l.lowest with
    | some d =>
        refine Or.inr ⟨d, hlowest, fun a ha => ?_⟩
        obtain ⟨n, hlt, htarget⟩ := hbehind a ha
        exact Nat.lt_of_le_of_lt ((h.lowest.2 d hlowest).2 n htarget) hlt
    | none =>
        -- where the target has not answered, whatever is left is awaited in vain
        refine Or.inl (List.isEmpty_iff.2 (List.eq_nil_iff_forall_not_mem.2 fun a ha => ?_))
        obtain ⟨n, -, htarget⟩ := hbehind a ha
        exact h.lowest.1 hlowest n htarget

/-! ### The end of listening -/

/-- Before the first delivery is due nothing is. -/
theorem InOrder.nothing_before {a : Arrival} {rest : List Arrival} (hq : InOrder (a :: rest))
    {t : Duration} (hlt : t < a.due) :
    packetsBy (a :: rest) t = [] ∧ ¬ FailsBy (a :: rest) t := by
  have hlate : ∀ b ∈ a :: rest, ¬ b.due ≤ t := by
    intro b hb
    apply Nat.not_le.2
    rcases List.mem_cons.1 hb with rfl | hb
    · exact hlt
    · exact Nat.lt_of_lt_of_le hlt ((List.pairwise_cons.1 hq).1 b hb)
  constructor
  · have hnone : (a :: rest).filter (fun b => decide (b.due ≤ t)) = [] :=
      List.filter_eq_nil_iff.2 fun b hb => by simpa using hlate b hb
    rw [packetsBy, hnone, List.filterMap_nil]
  · rintro ⟨b, hb, hle, -⟩
    exact hlate b hb hle

/-- A datagram that is due is one more datagram heard. -/
theorem packetsBy_cons {a : Arrival} {bytes : List UInt8} (ha : a.delivery = .datagram bytes)
    (rest : List Arrival) {t : Duration} (hle : a.due ≤ t) :
    packetsBy (a :: rest) t = bytes.take readLimit :: packetsBy rest t := by
  have hpacket : a.packet? = some (bytes.take readLimit) := by rw [Arrival.packet?, ha]
  simp [packetsBy, hle, hpacket]

theorem failsBy_cons {a : Arrival} {bytes : List UInt8} (ha : a.delivery = .datagram bytes)
    (rest : List Arrival) (t : Duration) : FailsBy (a :: rest) t ↔ FailsBy rest t := by
  simp [FailsBy, ha]

/-- Why listening is over at an instant, when some datagrams have been heard
before: the time is up, nothing is left to wait for, or a reading fails. -/
def OverAt (e : Engine) (cycle : Nat) (awaited : List Awaited) (deadline : Duration)
    (heard : List (List UInt8)) (queue : List Arrival) (t : Duration) : Prop :=
  t = deadline ∨ NothingLeft e cycle awaited (heard ++ packetsBy queue t) ∨ FailsBy queue t

section OverAt

variable {deadline : Duration} {heard : List (List UInt8)} {a : Arrival} {rest : List Arrival}

/-- Listening that is not over goes on to the first delivery, unless the time is
up before. -/
theorem OverAt.due_le {t : Duration}
    (h : OverAt e cycle awaited deadline heard (a :: rest) t) (hq : InOrder (a :: rest))
    (hleft : ¬ NothingLeft e cycle awaited heard) : min a.due deadline ≤ t := by
  refine Nat.le_of_not_lt fun hearly => ?_
  obtain ⟨hdue, hdeadline⟩ := Nat.lt_min.1 hearly
  obtain ⟨hnone, hfine⟩ := hq.nothing_before hdue
  rcases h with htime | hnothing | hfails
  · exact absurd htime (Nat.ne_of_lt hdeadline)
  · rw [hnone, List.append_nil] at hnothing
    exact hleft hnothing
  · exact hfine hfails

/-- From the instant at which a datagram is due, it has been heard. -/
theorem overAt_cons {bytes : List UInt8} (ha : a.delivery = .datagram bytes) {t : Duration}
    (hle : a.due ≤ t) :
    OverAt e cycle awaited deadline heard (a :: rest) t ↔
      OverAt e cycle awaited deadline (heard ++ [bytes.take readLimit]) rest t := by
  rw [OverAt, OverAt, packetsBy_cons ha rest hle, failsBy_cons ha, List.append_assoc,
    List.singleton_append]

/-- If the first delivery is due in time, listening is not over before it. -/
theorem OverAt.max_due_le {t clock : Duration}
    (h : OverAt e cycle awaited deadline heard (a :: rest) t) (hq : InOrder (a :: rest))
    (hleft : ¬ NothingLeft e cycle awaited heard) (hdue : a.due ≤ deadline) (ht : clock ≤ t) :
    max clock a.due ≤ t := by
  have hmin := h.due_le hq hleft
  rw [Nat.min_eq_left hdue] at hmin
  exact Nat.max_le.2 ⟨ht, hmin⟩

/-- When a datagram is taken in, the instants at which listening may end are still
the same. -/
theorem setOf_overAt_cons {bytes : List UInt8} (ha : a.delivery = .datagram bytes)
    (hq : InOrder (a :: rest)) (hleft : ¬ NothingLeft e cycle awaited heard)
    (hdue : a.due ≤ deadline) (clock : Duration) :
    {t | clock ≤ t ∧ OverAt e cycle awaited deadline heard (a :: rest) t} =
      {t | max clock a.due ≤ t ∧
        OverAt e cycle awaited deadline (heard ++ [bytes.take readLimit]) rest t} := by
  ext t
  constructor
  · rintro ⟨ht, hover⟩
    have hle := hover.max_due_le hq hleft hdue ht
    exact ⟨hle, (overAt_cons ha (Nat.le_trans (Nat.le_max_right _ _) hle)).1 hover⟩
  · rintro ⟨hle, hover⟩
    exact ⟨Nat.le_trans (Nat.le_max_left _ _) hle,
      (overAt_cons ha (Nat.le_trans (Nat.le_max_right _ _) hle)).2 hover⟩

end OverAt

/-- **The end of listening** is the first instant at which it is over. -/
theorem listenUntil_isLeast {deadline : Duration} {queue : List Arrival} {l : Listening}
    (h : Heard e cycle (.start s awaited) l) (hq : InOrder queue)
    (hl : l.state.clock ≤ deadline) :
    IsLeast {t | l.state.clock ≤ t ∧ OverAt e cycle awaited deadline l.packets queue t}
      (e.listenUntil Listening.isSettled cycle deadline queue l).2.state.clock := by
  induction queue generalizing l with
  | nil =>
      unfold listenUntil
      split
      · next hsettled =>
        refine ⟨⟨Nat.le_refl _, Or.inr (Or.inl ?_)⟩, fun t ht => ht.1⟩
        exact (h.isSettled_iff.1 hsettled).append _
      · next hwaits =>
        have hclock : (l.state.waitUntil deadline).clock = deadline := Nat.max_eq_right hl
        rw [hclock]
        refine ⟨⟨hl, Or.inl rfl⟩, ?_⟩
        rintro t ⟨-, htime | hnothing | ⟨a, ha, -⟩⟩
        · exact Nat.le_of_eq htime.symm
        · rw [packetsBy, List.filter_nil, List.filterMap_nil, List.append_nil] at hnothing
          exact absurd (h.isSettled_iff.2 hnothing) hwaits
        · simp at ha
  | cons a rest ih =>
      unfold listenUntil
      split
      · next hsettled =>
        refine ⟨⟨Nat.le_refl _, Or.inr (Or.inl ?_)⟩, fun t ht => ht.1⟩
        exact (h.isSettled_iff.1 hsettled).append _
      · next hwaits =>
        have hleft : ¬ NothingLeft e cycle awaited l.packets :=
          fun hnothing => hwaits (h.isSettled_iff.2 hnothing)
        rw [Nat.max_eq_right hl]
        split
        · next hdue =>
          have hmax : max l.state.clock a.due ≤ deadline := Nat.max_le.2 ⟨hl, hdue⟩
          dsimp only
          split
          · next hfailure =>
            refine ⟨⟨Nat.le_max_left _ _, Or.inr (Or.inr ?_)⟩, fun t ht => ?_⟩
            · exact ⟨a, List.mem_cons_self, Nat.le_max_right _ _, hfailure⟩
            · exact ht.2.max_due_le hq hleft hdue ht.1
          · next bytes hbytes =>
            have hnext := (h.wait a.due).read a.due (bytes.take readLimit)
            have hclock := state_clock_take e cycle
              { l with state := l.state.waitUntil a.due } a.due (bytes.take readLimit)
            have hpackets : (e.take cycle { l with state := l.state.waitUntil a.due } a.due
                (bytes.take readLimit)).packets = l.packets ++ [bytes.take readLimit] := by
              rw [Listening.packets, reads_take, List.map_append]
              rfl
            have hleast := ih hnext (List.pairwise_cons.1 hq).2 (hclock ▸ hmax)
            rw [hpackets, hclock] at hleast
            rw [setOf_overAt_cons hbytes hq hleft hdue]
            exact hleast
        · next hlate =>
          have hclock : (l.state.waitUntil deadline).clock = deadline := Nat.max_eq_right hl
          rw [hclock]
          refine ⟨⟨hl, Or.inl rfl⟩, ?_⟩
          rintro t ⟨-, hover⟩
          have hmin := hover.due_le hq hleft
          rwa [Nat.min_eq_right (Nat.le_of_not_le hlate)] at hmin

/-- What listening takes off the queue is due by the deadline, and unless it ends
early that is all that is due by then. -/
theorem listenUntil_taken (e : Engine) (cycle : Nat) {deadline : Duration} {queue : List Arrival}
    {l : Listening} (hq : InOrder queue) (hl : l.state.clock ≤ deadline) :
    ∃ taken, queue = taken ++ (e.listenUntil Listening.isSettled cycle deadline queue l).1 ∧
      (∀ a ∈ taken, a.due ≤ deadline) ∧
      ((e.listenUntil Listening.isSettled cycle deadline queue l).2.isSettled = true ∨
        (∃ a ∈ taken, a.delivery = .failure) ∨
        ∀ a ∈ (e.listenUntil Listening.isSettled cycle deadline queue l).1, deadline < a.due) := by
  induction queue generalizing l with
  | nil =>
      unfold listenUntil
      split <;> exact ⟨[], rfl, by simp, Or.inr (Or.inr (by simp))⟩
  | cons a rest ih =>
      obtain ⟨hfirst, hrest⟩ := List.pairwise_cons.1 hq
      unfold listenUntil
      split
      · next hsettled => exact ⟨[], rfl, by simp, Or.inl hsettled⟩
      · rw [Nat.max_eq_right hl]
        split
        · next hdue =>
          dsimp only
          split
          · next hfailure =>
            exact ⟨[a], rfl, by simpa using hdue, Or.inr (Or.inl ⟨a, by simp, hfailure⟩)⟩
          · next bytes hbytes =>
            have hclock : (e.take cycle { l with state := l.state.waitUntil a.due } a.due
                (bytes.take readLimit)).state.clock ≤ deadline := by
              rw [state_clock_take]
              exact Nat.max_le.2 ⟨hl, hdue⟩
            obtain ⟨taken, hsplit, hdues, hend⟩ := ih hrest hclock
            refine ⟨a :: taken, congrArg _ hsplit, ?_, ?_⟩
            · intro b hb
              rcases List.mem_cons.1 hb with rfl | hb
              · exact hdue
              · exact hdues b hb
            · exact hend.imp_right (Or.imp_left fun ⟨b, hb, hfailure⟩ =>
                ⟨b, List.mem_cons_of_mem _ hb, hfailure⟩)
        · next hlate =>
          have hlt := Nat.lt_of_not_le hlate
          refine ⟨[], rfl, by simp, Or.inr (Or.inr fun b hb => ?_)⟩
          rcases List.mem_cons.1 hb with rfl | hb
          · exact hlt
          · exact Nat.lt_of_lt_of_le hlt (hfirst b hb)

/-- How long listening waits from a state on, where some probes are awaited. -/
structure WaitsExactly (e : Engine) (cycle : Nat) (s : State) (awaited : List Awaited)
    (l : Listening) : Prop where
  /-- It ends at the first instant at which the time is up, every awaited probe is
  answered or behind a hop that the target answered for, or a reading fails. -/
  ends : IsLeast {t | s.clock ≤ t ∧ (t = s.clock + e.config.timeout ∨
    NothingLeft e cycle awaited (packetsBy s.queue t) ∨ FailsBy s.queue t)} l.state.clock
  /-- If it ends because the time is up, it has read all that was due by then, and
  left all that was not. -/
  readAll : ¬ NothingLeft e cycle awaited (packetsBy s.queue l.state.clock) →
    ¬ FailsBy s.queue l.state.clock →
    l.packets = packetsBy s.queue (s.clock + e.config.timeout) ∧
      l.state.queue = s.queue.filter fun a => decide (s.clock + e.config.timeout < a.due)
  /-- It reads nothing that is due later. -/
  inTime : ∀ r ∈ l.reads, r.due ≤ s.clock + e.config.timeout

/-- **Listening waits exactly as long as it should**, for every set of awaited
probes and every queue in the order of reading. -/
theorem receive_waitsExactly (e : Engine) (cycle : Nat) {s : State} (awaited : List Awaited)
    (hq : InOrder s.queue) : WaitsExactly e cycle s awaited (e.receive cycle s awaited) := by
  have hstart : s.clock ≤ s.clock + e.config.timeout := Nat.le_add_right _ _
  have hfirst : Heard e cycle (.start s awaited) (.start s awaited) := .start
  have hleast := listenUntil_isLeast hfirst hq hstart
  obtain ⟨taken, hsplit, hdues, hend⟩ :=
    listenUntil_taken e cycle (l := .start s awaited) hq hstart
  obtain ⟨taken', hsplit', hreads⟩ := listenUntil_reads Listening.isSettled e cycle
    (s.clock + e.config.timeout) s.queue (.start s awaited)
  obtain rfl := List.append_cancel_right (hsplit.symm.trans hsplit')
  have hheard : Heard e cycle (.start s awaited) (e.receive cycle s awaited) :=
    receiveUntil_heard ..
  have hreads : (e.receive cycle s awaited).reads.map (fun r => (r.due, r.packet)) =
      taken.filterMap fun a => a.packet?.map fun packet => (a.due, packet) := hreads
  have hpackets : (e.receive cycle s awaited).packets = taken.filterMap Arrival.packet? := by
    have hmap := congrArg (List.map Prod.snd) hreads
    simpa [Listening.packets, List.map_filterMap, Function.comp_def] using hmap
  constructor
  case ends => exact hleast
  case inTime =>
    intro r hr
    have hmem := List.mem_map_of_mem (f := fun r : Read => (r.due, r.packet)) hr
    rw [hreads] at hmem
    obtain ⟨a, ha, hpair⟩ := List.mem_filterMap.1 hmem
    obtain ⟨packet, -, heq⟩ := Option.map_eq_some_iff.1 hpair
    rw [← (Prod.mk.inj heq).1]
    exact hdues a ha
  case readAll =>
    intro hleft hfine
    have htime : (e.receive cycle s awaited).state.clock = s.clock + e.config.timeout :=
      hleast.1.2.resolve_right (not_or.2 ⟨hleft, hfine⟩)
    rw [htime] at hleft hfine
    have hdue : taken.filter (fun a => decide (a.due ≤ s.clock + e.config.timeout)) = taken :=
      List.filter_eq_self.2 fun a ha => decide_eq_true (hdues a ha)
    have hunsettled : ¬ (e.receive cycle s awaited).isSettled = true := by
      intro hsettled
      apply hleft
      have hnothing := hheard.isSettled_iff.1 hsettled
      rw [hpackets] at hnothing
      rw [packetsBy, hsplit, List.filter_append, List.filterMap_append, hdue]
      exact hnothing.append _
    have hrest : ∀ a ∈ (e.receive cycle s awaited).state.queue,
        s.clock + e.config.timeout < a.due := by
      rcases hend with hsettled | ⟨a, ha, hfailure⟩ | hrest
      · exact absurd hsettled hunsettled
      · refine absurd ⟨a, ?_, hdues a ha, hfailure⟩ hfine
        rw [hsplit]
        exact List.mem_append_left _ ha
      · exact hrest
    rw [hpackets, packetsBy, hsplit, List.filter_append, List.filter_append, hdue]
    constructor
    · rw [List.filter_eq_nil_iff.2 fun a ha => ?_, List.append_nil]
      simpa using hrest a ha
    · rw [List.filter_eq_nil_iff.2 fun a ha => ?_, List.nil_append]
      · exact (List.filter_eq_self.2 fun a ha => decide_eq_true (hrest a ha)).symm
      · simpa using hdues a ha

/-! ### How long cycles and runs take -/

/-- The longest that a cycle may take: a pause for each position, a time-out, and
another one where names are wanted. -/
def cycleLimit (e : Engine) : Duration :=
  e.config.maxHops.toNat * e.config.sendDelay + e.config.timeout +
    if e.config.resolveNames then e.config.timeout else 0

theorem passOf_clock_le (e : Engine) (stop : Stop) (s : State) :
    (e.passOf stop s).state.clock ≤ s.clock + e.config.maxHops.toNat * e.config.sendDelay := by
  have hstory : Story e s.ledger.cycles e.hops s [] (e.passOf stop s)
      ((e.passOf stop s).state.sendingsSince s) := sendPass_story ..
  rw [hstory.clock]
  exact Nat.add_le_add_left (Nat.mul_le_mul_right _ hstory.inTurn.length_le) _

theorem nameHops_within (e : Engine) (stop : Stop) (l : Listening) :
    (e.nameHops stop l).clock ≤
      l.state.clock + if e.config.resolveNames then e.config.timeout else 0 := by
  by_cases hwanted : e.config.resolveNames = true
  · rw [if_pos hwanted]
    exact (nameHops_clock_le e stop l).1
  · rw [nameHops, if_neg hwanted]
    exact Nat.le_add_right _ _

/-- **No cycle takes longer than its parts allow.** -/
theorem cycle_within_limit (e : Engine) (stop : Stop) (s : State) :
    (e.cycle stop s).state.clock ≤ s.clock + e.cycleLimit := by
  have hpass := passOf_clock_le e stop s
  by_cases hcomplete : (e.passOf stop s).isComplete = true
  · rw [cycle_of_complete hcomplete]
    let names : Duration := if e.config.resolveNames then e.config.timeout else 0
    calc (e.nameHops stop (e.heardIn stop s)).clock
        ≤ (e.heardIn stop s).state.clock + names := nameHops_within ..
      _ ≤ (e.passOf stop s).state.clock + e.config.timeout + names :=
          Nat.add_le_add_right (heardIn_clock_le e stop s) _
      _ ≤ s.clock + e.config.maxHops.toNat * e.config.sendDelay + e.config.timeout + names :=
          Nat.add_le_add_right (Nat.add_le_add_right hpass _) _
      _ = s.clock + e.cycleLimit := by simp only [cycleLimit, names, Nat.add_assoc]
  · rw [cycle_of_cut hcomplete]
    refine Nat.le_trans hpass (Nat.add_le_add_left ?_ _)
    exact Nat.le_add_right_of_le (Nat.le_add_right _ _)

theorem pause_clock_le (e : Engine) (stop : Stop) (s : State) :
    (e.pause stop s).1.clock ≤ s.clock + e.config.interval := by
  unfold pause
  split
  · exact Nat.le_add_right _ _
  · split
    · split
      · next hle => exact Nat.max_le.2 ⟨Nat.le_add_right _ _, hle⟩
      · exact Nat.le_refl _
    · exact Nat.le_refl _

/-- A turn takes a cycle at the most, and the turns after it, if there are any, an
interval and their own time. -/
private theorem turn_le {start finish limit interval turns : Nat}
    (h : finish ≤ start + limit ∨ 0 < turns ∧ ∃ next, next ≤ start + limit + interval ∧
      finish ≤ next + turns * limit + (turns - 1) * interval) :
    finish ≤ start + (turns + 1) * limit + (turns + 1 - 1) * interval := by
  rcases h with hle | ⟨hpos, next, hnext, hrest⟩
  · rw [Nat.succ_mul]
    omega
  · obtain ⟨k, rfl⟩ : ∃ k, turns = k + 1 := ⟨turns - 1, by omega⟩
    simp only [Nat.add_sub_cancel, Nat.succ_mul] at hrest ⊢
    omega

/-- **A run takes no longer** than a cycle for each turn and an interval between
two of them. -/
theorem Turns.within_limit {stop : Stop} {turns : Nat} {mark : Duration} {completed : Nat}
    {f : State} {known : List State} {ending : Ending}
    (h : Turns e stop turns mark completed s known f ending)
    (hbounded : e.config.isUnbounded = false) (hturns : turns + completed = e.config.count) :
    f.clock ≤ s.clock + turns * e.cycleLimit + (turns - 1) * e.config.interval := by
  have hmore : ∀ {turns completed : Nat}, turns + 1 + completed = e.config.count →
      e.isEnough (completed + 1) = false → 0 < turns := by
    intro turns completed hturns hagain
    have hlt : ¬ e.config.count ≤ completed + 1 := by simpa [isEnough, hbounded] using hagain
    omega
  have hpaused : ∀ {mark : Duration} {s : State}, (e.pause stop (e.closed stop mark s)).1.clock ≤
      s.clock + e.cycleLimit + e.config.interval := fun {mark s} =>
    Nat.le_trans (pause_clock_le e stop (e.closed stop mark s))
      (Nat.add_le_add_right (cycle_within_limit e stop s) _)
  induction h with
  | unfinished | rest => exact Nat.le_add_right_of_le (Nat.le_add_right _ _)
  | cut | enough => exact turn_le (Or.inl (cycle_within_limit ..))
  | told _ _ _ hagain =>
      exact turn_le (Or.inr ⟨hmore hturns hagain, _, hpaused,
        Nat.le_add_right_of_le (Nat.le_add_right _ _)⟩)
  | next _ _ _ hagain _ _ ih =>
      exact turn_le (Or.inr ⟨hmore hturns hagain, _, hpaused, ih (by omega)⟩)

/-- **The engine waits exactly as long as it should.**  After every send pass, and
whatever the queue holds, listening ends at the first instant at which there is
nothing left to wait for, a reading fails, or the time is up; until then it reads
all that is due, and nothing that is due later.  So every cycle is over in time,
and a run with a count ends and takes no longer than its cycles and the intervals
between them, whatever the network, the name service and the signal do. -/
theorem waits_exactly (e : Engine) :
    (∀ (cycle : Nat) (s : State) (awaited : List Awaited), InOrder s.queue →
      WaitsExactly e cycle s awaited (e.receive cycle s awaited)) ∧
    (∀ (stop : Stop) (s : State), (e.cycle stop s).state.clock ≤ s.clock + e.cycleLimit) ∧
    (0 < e.config.count → ∀ (stop : Stop) (patience : Nat) (s : State),
      let run := e.runCollecting stop patience s
      run.ending = .finished ∧
        run.state.clock ≤ s.clock + e.config.count * e.cycleLimit +
          (e.config.count - 1) * e.config.interval) := by
  refine ⟨fun cycle s awaited hq => receive_waitsExactly e cycle awaited hq,
    cycle_within_limit e, fun hpos stop patience s => ?_⟩
  have hbounded : e.config.isUnbounded = false := decide_eq_false (by omega)
  have hcount : e.turns patience = e.config.count := by
    rw [turns, hbounded]
    rfl
  obtain ⟨known, hturns, -, -⟩ := run_turns e stop patience s
  have hle := hturns.within_limit hbounded hcount
  rw [hcount, clock_markStart] at hle
  exact ⟨((run_counted e stop patience s).1 hpos).1, hle⟩

/-- A path of two hops, of which the first answers at the last instant that
counts, and the second, the target, a nanosecond later. -/
def lateTrial : Engine :=
  trial 2 0 [.plain 1 (2 * Duration.second) ⟨192, 168, 1, 1⟩,
    .plain 2 (2 * Duration.second + 1) ⟨8, 8, 8, 8⟩]

/-- The answer at the last instant is read, the one after it is left in the queue,
and the run has taken all the time that it may take. -/
theorem waits_until_last_instant :
    let s := lateTrial.start [] []
    let pass := lateTrial.sendPass .never 0 lateTrial.hops s []
    let l := lateTrial.receive 0 pass.state pass.awaited
    let run := lateTrial.runCollecting .never 0 s
    InOrder pass.state.queue ∧ 0 < lateTrial.config.count ∧
      WaitsExactly lateTrial 0 pass.state pass.awaited l ∧
      l.state.clock = 2 * Duration.second ∧ l.reads.length = 1 ∧ l.state.queue.length = 1 ∧
      run.ending = .finished ∧
      run.state.clock ≤ s.clock + lateTrial.config.count * lateTrial.cycleLimit +
        (lateTrial.config.count - 1) * lateTrial.config.interval ∧
      run.state.clock = lateTrial.cycleLimit := by
  intro s pass l run
  obtain ⟨hwaits, -, hrun⟩ := waits_exactly lateTrial
  have hq : InOrder pass.state.queue := sendPass_inOrder List.Pairwise.nil
  have hpos : 0 < lateTrial.config.count := by decide
  obtain ⟨hending, hle⟩ := hrun hpos .never 0 s
  exact ⟨hq, hpos, hwaits 0 pass.state pass.awaited hq, by decide +kernel, by decide +kernel,
    by decide +kernel, hending, hle, by decide +kernel⟩

end PathMeter.Engine
