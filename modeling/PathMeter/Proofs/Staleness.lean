import PathMeter.Engine.Rehearsal
import PathMeter.Proofs.Reports

/-!
# Which passes are told apart

Of the cycle that a probe belongs to, its sequence number carries the number
modulo 256.  Passes that are fewer than 256 apart would be told apart by that
if no two of them had the same number.  But cycles are numbered by the
completed ones: a pass that was cut short leaves its number to the next one,
and both send the same sequence numbers.

So two passes are told apart just when the earlier one, or one between them,
was completed (`passes_told_apart_iff`).  Otherwise a late reply to the earlier
pass can be accepted in the later one, as it happens where a run is stopped
while it sends and another follows at once.
-/

namespace PathMeter.Engine

/-- The sequence number that the probe of an attempt carries. -/
def Sending.sequence? (x : Sending) : Option UInt16 :=
  (Reply.idAndSequence? x.attempt.packet).map Prod.snd

/-- A datagram answers the probe of an attempt: it is a reply of this run under
the sequence number of that probe. -/
def AnswersProbe (e : Engine) (x : Sending) (packet : List UInt8) : Prop :=
  ∃ reply, Reply.ofDatagram? e.identifier e.config.maxHops packet = some reply ∧
    x.sequence? = some reply.id.sequence

/-- All passes from number `i` on and before number `j` were cut short. -/
def AllCut (passes : List CycleReport) (i j : Nat) : Prop :=
  ∀ r ∈ (passes.take j).drop i, r.isComplete = false

variable {e : Engine}

/-- Passes are numbered alike modulo 256 just when none of them was completed in
between, as long as they are not too far apart. -/
theorem Numbered.cycle_mod_eq_iff {passes : List CycleReport} (h : Numbered passes) {i j : Nat}
    {earlier later : CycleReport} (hij : i < j) (hnear : j < i + 256)
    (hi : passes[i]? = some earlier) (hj : passes[j]? = some later) :
    earlier.cycle % 256 = later.cycle % 256 ↔ AllCut passes i j := by
  have hsplit : later.cycle =
      earlier.cycle + ((passes.take j).drop i).countP (·.isComplete) := by
    have hparts := congrArg (List.countP (·.isComplete)) (List.take_append_drop i (passes.take j))
    rw [List.countP_append, List.take_take, Nat.min_eq_left (Nat.le_of_lt hij)] at hparts
    rw [h i earlier hi, h j later hj, hparts]
  -- fewer than 256 passes, so the completed ones among them do not wrap around
  have hfew : ((passes.take j).drop i).countP (·.isComplete) ≤ j - i := by
    refine Nat.le_trans List.countP_le_length ?_
    rw [List.length_drop, List.length_take]
    omega
  have hnone : AllCut passes i j ↔ ((passes.take j).drop i).countP (·.isComplete) = 0 := by
    rw [List.countP_eq_zero]
    simp only [AllCut, Bool.not_eq_true]
  rw [hnone]
  omega

section Report

variable {r : CycleReport} {x : Sending}

/-- The probe of an attempt carries the number of the cycle and the position. -/
theorem Truthful.sequence?_eq (h : Truthful e r) (hx : x ∈ r.sendings) :
    x.sequence? = some (ProbeId.ofCycle r.cycle (UInt8.ofNat x.attempt.ttl)).sequence := by
  obtain ⟨i, -, -, -, hattempt⟩ := h.inTurn.exists_index hx
  rw [Sending.sequence?, hattempt]
  simp only [Engine.attempt, Wire.echoRequest, Reply.idAndSequence?_echo, Option.map_some]

theorem Truthful.sequence?_eq_iff (h : Truthful e r) (hx : x ∈ r.sendings) {id : ProbeId} :
    x.sequence? = some id.sequence ↔
      id.cycle.toNat = r.cycle % 256 ∧ id.hop.toNat = x.attempt.ttl := by
  have httl := h.inTurn.ttl_lt hx
  rw [h.sequence?_eq hx, Option.some_inj, ProbeId.sequence_inj, eq_comm, ProbeId.ofCycle,
    ProbeId.mk.injEq, ← UInt8.toNat_inj, ← UInt8.toNat_inj, UInt8.toNat_ofNat',
    UInt8.toNat_ofNat', Nat.mod_eq_of_lt httl]

/-- Whether a datagram answers the probe of an attempt is told by the number of
the cycle, as far as it is carried, and the position. -/
theorem Truthful.answersProbe_iff (h : Truthful e r) (hx : x ∈ r.sendings)
    {packet : List UInt8} :
    AnswersProbe e x packet ↔ Answers e r.cycle x.attempt.ttl packet := by
  simp only [AnswersProbe, Answers, h.sequence?_eq_iff hx]

end Report

/-- Two attempts carry the same sequence number just when they are aimed at one
position in cycles that are numbered alike. -/
theorem sequence?_eq_iff {r r' : CycleReport} {x y : Sending} (h : Truthful e r)
    (h' : Truthful e r') (hx : x ∈ r.sendings) (hy : y ∈ r'.sendings) :
    x.sequence? = y.sequence? ↔
      x.attempt.ttl = y.attempt.ttl ∧ r.cycle % 256 = r'.cycle % 256 := by
  rw [h'.sequence?_eq hy, h.sequence?_eq_iff hx, ProbeId.ofCycle, UInt8.toNat_ofNat',
    UInt8.toNat_ofNat', Nat.mod_eq_of_lt (h'.inTurn.ttl_lt hy), and_comm]
  exact and_congr eq_comm eq_comm

/-- A late reply to an earlier attempt is accepted just when the two cycles are
numbered alike and it is the first to answer the later attempt for that
position. -/
theorem late_reply_accepted_iff {r r' : CycleReport} {x : Sending} (h : Truthful e r)
    (h' : Truthful e r') (hx : x ∈ r.sendings) {before after : List Read} {read : Read}
    (hreads : r'.reads = before ++ read :: after) (hans : AnswersProbe e x read.packet) :
    read.verdict.isAccepted = true ↔ r.cycle % 256 = r'.cycle % 256 ∧
      (∃ y ∈ r'.sendings, y.outcome.isSent = true ∧ y.attempt.ttl = x.attempt.ttl) ∧
      ∀ read' ∈ before, ¬ Answers e r'.cycle x.attempt.ttl read'.packet := by
  obtain ⟨reply, hreply, hcycle, hhop⟩ := (h.answersProbe_iff hx).1 hans
  rw [h'.accepted_iff before read after hreads]
  constructor
  · intro hfirst
    obtain ⟨hop, ⟨⟨reply', hreply', hcycle', rfl⟩, hsent⟩, hopen⟩ := hfirst
    obtain rfl : reply = reply' := Option.some.inj (hreply.symm.trans hreply')
    rw [hhop] at hsent hopen
    exact ⟨hcycle.symm.trans hcycle', hsent, fun read' hread' hans' =>
      hopen read' hread' ⟨hans', hsent⟩⟩
  · intro hfirst
    obtain ⟨hmod, hsent, hopen⟩ := hfirst
    exact ⟨x.attempt.ttl, ⟨⟨reply, hreply, hcycle.trans hmod, hhop⟩, hsent⟩,
      fun read' hread' hans' => hopen read' hread' hans'.1⟩

/-- **Which passes are told apart.**  Take any two passes of any history that
are fewer than 256 apart.  An attempt of the one and an attempt of the other
share a sequence number just when they are aimed at the same position and all
passes from the earlier one to the one before the later were cut short.  And
just under the same condition a late reply to the earlier pass is accepted in
the later one, where it is the first for its position. -/
theorem passes_told_apart_iff (e : Engine) (waiting : List Arrival) (asked : List String)
    (visits : List Visit) {i j : Nat} {earlier later : CycleReport}
    (hij : i < j) (hnear : j < i + 256)
    (hi : (e.history waiting asked visits).passes[i]? = some earlier)
    (hj : (e.history waiting asked visits).passes[j]? = some later) :
    (∀ x ∈ earlier.sendings, ∀ y ∈ later.sendings,
      (x.sequence? = y.sequence? ↔ x.attempt.ttl = y.attempt.ttl ∧
        AllCut (e.history waiting asked visits).passes i j)) ∧
    ∀ x ∈ earlier.sendings, ∀ before read after, later.reads = before ++ read :: after →
      AnswersProbe e x read.packet →
        (read.verdict.isAccepted = true ↔
          AllCut (e.history waiting asked visits).passes i j ∧
          (∃ y ∈ later.sendings, y.outcome.isSent = true ∧ y.attempt.ttl = x.attempt.ttl) ∧
          ∀ read' ∈ before, ¬ Answers e later.cycle x.attempt.ttl read'.packet) := by
  have hs := history_reachable e waiting asked visits
  have hmod := hs.numbered.2.cycle_mod_eq_iff hij hnear hi hj
  have hearlier := hs.truthful earlier (List.mem_reverse.1 (List.mem_of_getElem? hi))
  have hlater := hs.truthful later (List.mem_reverse.1 (List.mem_of_getElem? hj))
  rw [← hmod]
  constructor
  · exact fun x hx y hy => sequence?_eq_iff hearlier hlater hx hy
  · exact fun x hx before read after hreads hans =>
      late_reply_accepted_iff hearlier hlater hx hreads hans

/-- A path of two hops, of which the first answers half a second after each
probe. -/
def slowTrial : Engine :=
  trial 2 0 [.plain 1 (500 * Duration.millisecond) ⟨192, 168, 1, 1⟩]

/-- A run that is stopped during its first attempt, and another one 400
milliseconds later. -/
def stoppedThenRun : List Visit :=
  [⟨0, { attempt := some 1 }, 0⟩, ⟨400 * Duration.millisecond, .never, 0⟩]

/-- A delivery is accepted in a cycle. -/
def Accepts (r : CycleReport) (a : Arrival) : Prop :=
  ∃ read ∈ r.reads, a.due = read.due ∧ a.packet? = some read.packet ∧
    read.verdict.isAccepted = true

instance (r : CycleReport) (a : Arrival) : Decidable (Accepts r a) :=
  inferInstanceAs (Decidable (∃ read ∈ r.reads, a.due = read.due ∧
    a.packet? = some read.packet ∧ read.verdict.isAccepted = true))

/-- The reply to the pass cut short is accepted in the next one. -/
theorem stale_reply_accepted :
    ∃ earlier ∈ (slowTrial.history [] [] stoppedThenRun).passes,
      ∃ later ∈ (slowTrial.history [] [] stoppedThenRun).passes,
        earlier.began < later.began ∧ ∃ x ∈ earlier.sendings,
          (∃ y ∈ later.sendings, x.sequence? = y.sequence?) ∧
          ∃ a ∈ x.outcome.arrivals, Accepts later a := by
  decide +kernel

/-- The two passes share the sequence numbers of the positions that both
attempt. -/
theorem passes_not_told_apart :
    ∃ earlier later, (slowTrial.history [] [] stoppedThenRun).passes[0]? = some earlier ∧
      (slowTrial.history [] [] stoppedThenRun).passes[1]? = some later ∧
      ∀ x ∈ earlier.sendings, ∀ y ∈ later.sendings,
        (x.sequence? = y.sequence? ↔ x.attempt.ttl = y.attempt.ttl) := by
  have hcut : AllCut (slowTrial.history [] [] stoppedThenRun).passes 0 1 := by
    unfold AllCut
    decide +kernel
  obtain ⟨earlier, hi⟩ : ∃ r, (slowTrial.history [] [] stoppedThenRun).passes[0]? = some r :=
    Option.isSome_iff_exists.1 (by decide +kernel)
  obtain ⟨later, hj⟩ : ∃ r, (slowTrial.history [] [] stoppedThenRun).passes[1]? = some r :=
    Option.isSome_iff_exists.1 (by decide +kernel)
  refine ⟨earlier, later, hi, hj, fun x hx y hy => ?_⟩
  rw [(passes_told_apart_iff slowTrial [] [] stoppedThenRun (by decide) (by decide)
    hi hj).1 x hx y hy]
  exact and_iff_left hcut

end PathMeter.Engine
