import PathMeter.Engine.Channel
import PathMeter.Proofs.Shown

/-!
# Snapshots over a channel

A run that publishes on a channel is a run with an onlooker, and an onlooker
has no way to act on it.  So the channel and its consumer decide only which
snapshots the consumer obtains.

Nothing that a consumer does takes a snapshot away: what it obtains if it goes
on receiving stays the same (`Channel.obtained_act`), and a publication appends
to it or is dropped.  `Publishing.kept` lists the snapshots that are not
dropped.  It follows publication by publication, each told by the channel that
it meets.
-/

namespace PathMeter.Engine

/-! ### Acts of a consumer -/

namespace Channel

theorem act_receive_cons {ch : Channel} {s : Snapshot} {rest : List Snapshot}
    (h : ch.waiting = s :: rest) :
    ch.act .receive = { ch with waiting := rest, received := ch.received ++ [s] } := by
  simp only [act, h]

theorem act_receive_nil {ch : Channel} (h : ch.waiting = []) : ch.act .receive = ch := by
  simp only [act, h]

/-- What a consumer's act can do. -/
theorem act_cases (ch : Channel) (a : ConsumerAct) :
    ch.act a = { ch with isClosed := true } ∨ ch.act a = ch ∨
      ∃ s rest, ch.waiting = s :: rest ∧
        ch.act a = { ch with waiting := rest, received := ch.received ++ [s] } := by
  cases a with
  | close => exact Or.inl rfl
  | receive =>
      cases hwaiting : ch.waiting with
      | nil => exact Or.inr (Or.inl (act_receive_nil hwaiting))
      | cons s rest => exact Or.inr (Or.inr ⟨s, rest, rfl, act_receive_cons hwaiting⟩)

theorem obtained_act (ch : Channel) (a : ConsumerAct) : (ch.act a).obtained = ch.obtained := by
  rcases ch.act_cases a with hclosed | hsame | ⟨s, rest, hwaiting, hreceived⟩
  · rw [hclosed]
    rfl
  · rw [hsame]
  · rw [hreceived, obtained, obtained, hwaiting, List.append_assoc, List.singleton_append]

theorem obtained_acts (ch : Channel) (acts : List ConsumerAct) :
    (acts.foldl act ch).obtained = ch.obtained := by
  induction acts generalizing ch with
  | nil => rfl
  | cons a rest ih => rw [List.foldl_cons, ih, obtained_act]

/-- What is received is some of what is there to be obtained, in order. -/
theorem received_acts_sublist (ch : Channel) (acts : List ConsumerAct) :
    (acts.foldl act ch).received.Sublist ch.obtained := by
  rw [← ch.obtained_acts acts]
  exact List.sublist_append_left _ _

/-- The channel holds no more than it can. -/
def Fits (ch : Channel) : Prop :=
  ch.waiting.length ≤ ch.capacity

theorem capacity_act (ch : Channel) (a : ConsumerAct) : (ch.act a).capacity = ch.capacity := by
  rcases ch.act_cases a with h | h | ⟨s, rest, -, h⟩ <;> rw [h]

theorem capacity_acts (ch : Channel) (acts : List ConsumerAct) :
    (acts.foldl act ch).capacity = ch.capacity := by
  induction acts generalizing ch with
  | nil => rfl
  | cons a rest ih => rw [List.foldl_cons, ih, capacity_act]

theorem Fits.act {ch : Channel} (h : ch.Fits) (a : ConsumerAct) : (ch.act a).Fits := by
  rcases ch.act_cases a with hclosed | hsame | ⟨s, rest, hwaiting, hreceived⟩
  · rw [hclosed]
    exact h
  · rw [hsame]
    exact h
  · rw [Fits, hwaiting, List.length_cons] at h
    rw [hreceived]
    exact Nat.le_of_succ_le h

theorem Fits.acts {ch : Channel} (h : ch.Fits) (acts : List ConsumerAct) :
    (acts.foldl Channel.act ch).Fits := by
  induction acts generalizing ch with
  | nil => exact h
  | cons a rest ih => exact ih (h.act a)

/-- Who receives often enough obtains everything that waits. -/
theorem received_all (ch : Channel) {n : Nat} (h : ch.waiting.length ≤ n) :
    ((List.replicate n ConsumerAct.receive).foldl act ch).received = ch.obtained := by
  induction n generalizing ch with
  | zero =>
      have hwaiting := List.length_eq_zero_iff.1 (Nat.le_zero.1 h)
      rw [obtained, hwaiting, List.append_nil]
      rfl
  | succ n ih =>
      have hrest : (ch.act .receive).waiting.length ≤ n := by
        cases hwaiting : ch.waiting with
        | nil =>
            rw [act_receive_nil hwaiting, hwaiting]
            exact Nat.zero_le n
        | cons s rest =>
            rw [hwaiting, List.length_cons] at h
            rw [act_receive_cons hwaiting]
            exact Nat.le_of_succ_le_succ h
      rw [List.replicate_succ, List.foldl_cons, ih _ hrest, obtained_act]

/-! ### Publications -/

theorem refuses_iff {ch : Channel} (h : ch.Fits) :
    ch.refuses = true ↔ ch.isClosed = true ∨ ch.waiting.length = ch.capacity := by
  have hfull : ch.capacity ≤ ch.waiting.length ↔ ch.waiting.length = ch.capacity :=
    ⟨fun hle => Nat.le_antisymm h hle, fun heq => Nat.le_of_eq heq.symm⟩
  rw [refuses, Bool.or_eq_true, decide_eq_true_eq, hfull]

theorem obtained_publish (ch : Channel) (s : Snapshot) :
    (ch.publish s).obtained = ch.obtained ++ if ch.refuses then [] else [s] := by
  unfold publish
  split
  · exact (List.append_nil _).symm
  · exact (List.append_assoc ..).symm

theorem capacity_publish (ch : Channel) (s : Snapshot) :
    (ch.publish s).capacity = ch.capacity := by
  unfold publish
  split <;> rfl

theorem Fits.publish {ch : Channel} (h : ch.Fits) (s : Snapshot) : (ch.publish s).Fits := by
  unfold Channel.publish
  split
  · exact h
  · next hroom =>
    have hlt : ch.waiting.length < ch.capacity := by
      rw [refuses, Bool.or_eq_true, decide_eq_true_eq, not_or, Nat.not_le] at hroom
      exact hroom.2
    rw [Fits, List.length_append, List.length_singleton]
    exact hlt

end Channel

/-! ### The publications of a run -/

namespace Publishing

variable {consumer : Consumer} {p : Publishing} {s : Snapshot} {seen : List Snapshot}

/-- The channel that the next publication meets. -/
def met (consumer : Consumer) (p : Publishing) : Channel :=
  (consumer p.count).foldl Channel.act p.channel

/-- The channel that a publication meets, counted from zero. -/
def metAt (consumer : Consumer) (p : Publishing) (seen : List Snapshot) (i : Nat) : Channel :=
  ((seen.take i).foldl (next consumer) p).met consumer

/-- The snapshots that are not dropped. -/
def kept (consumer : Consumer) : Publishing → List Snapshot → List Snapshot
  | _, [] => []
  | p, s :: rest =>
    (if (p.met consumer).refuses then [] else [s]) ++ kept consumer (p.next consumer s) rest

theorem obtained_next (consumer : Consumer) (p : Publishing) (s : Snapshot) :
    (p.next consumer s).channel.obtained =
      p.channel.obtained ++ if (p.met consumer).refuses then [] else [s] := by
  rw [← Channel.obtained_acts p.channel (consumer p.count)]
  exact Channel.obtained_publish (p.met consumer) s

/-- What is obtained at the end is what was not dropped. -/
theorem obtained_foldl (consumer : Consumer) (p : Publishing) (seen : List Snapshot) :
    (seen.foldl (next consumer) p).channel.obtained =
      p.channel.obtained ++ kept consumer p seen := by
  induction seen generalizing p with
  | nil => exact (List.append_nil _).symm
  | cons s rest ih => rw [List.foldl_cons, ih, obtained_next, kept, List.append_assoc]

theorem kept_sublist (consumer : Consumer) (p : Publishing) (seen : List Snapshot) :
    (kept consumer p seen).Sublist seen := by
  induction seen generalizing p with
  | nil => exact List.Sublist.slnil
  | cons s rest ih =>
      rw [kept]
      split
      · exact (ih _).cons s
      · exact (ih _).cons_cons s

/-- A snapshot is kept exactly where the channel that it meets takes it. -/
theorem mem_kept_iff (hnodup : seen.Nodup) {i : Nat} (hi : seen[i]? = some s) :
    s ∈ kept consumer p seen ↔ (metAt consumer p seen i).refuses = false := by
  induction seen generalizing p i with
  | nil => cases hi
  | cons first rest ih =>
      obtain ⟨hfirst, hrest⟩ := List.nodup_cons.1 hnodup
      have htail := (kept_sublist consumer (p.next consumer first) rest).subset
      cases i with
      | zero =>
          obtain rfl := Option.some.inj hi
          -- no snapshot is published twice, so one that is dropped here is not kept later
          have hlater : first ∉ kept consumer (p.next consumer first) rest := fun h =>
            hfirst (htail h)
          have hmet : metAt consumer p (first :: rest) 0 = p.met consumer := rfl
          rw [kept, hmet, List.mem_append, or_iff_left hlater]
          cases (p.met consumer).refuses <;> simp
      | succ i =>
          have hmem : s ∈ rest := List.mem_of_getElem? hi
          have hne : s ≠ first := fun h => hfirst (h ▸ hmem)
          have hhead : s ∉ if (p.met consumer).refuses then [] else [first] := by
            split <;> simp [hne]
          rw [kept, List.mem_append, or_iff_right hhead]
          exact ih hrest hi

theorem fits_capacity_foldl (consumer : Consumer) (seen : List Snapshot) (h : p.channel.Fits) :
    (seen.foldl (next consumer) p).channel.Fits ∧
      (seen.foldl (next consumer) p).channel.capacity = p.channel.capacity := by
  induction seen generalizing p with
  | nil => exact ⟨h, rfl⟩
  | cons s rest ih =>
      obtain ⟨hfits, hcapacity⟩ :=
        ih (p := p.next consumer s) ((h.acts (consumer p.count)).publish s)
      refine ⟨hfits, hcapacity.trans ?_⟩
      exact (Channel.capacity_publish _ s).trans (Channel.capacity_acts _ _)

/-- A publication is refused exactly by a channel that is closed or full. -/
theorem refuses_metAt_iff (consumer : Consumer) (seen : List Snapshot) (i : Nat)
    (h : p.channel.Fits) :
    (metAt consumer p seen i).refuses = true ↔
      (metAt consumer p seen i).isClosed = true ∨
        (metAt consumer p seen i).waiting.length = p.channel.capacity := by
  obtain ⟨hfits, hcapacity⟩ := fits_capacity_foldl consumer (seen.take i) h
  have hmet : (metAt consumer p seen i).capacity = p.channel.capacity :=
    (Channel.capacity_acts _ _).trans hcapacity
  have hfitsMet : (metAt consumer p seen i).Fits := hfits.acts _
  rw [Channel.refuses_iff hfitsMet, hmet]

end Publishing

/-- What becomes of snapshots that are published one after another on a new
channel, which is left behind as `channel`. -/
structure Published (capacity : Nat) (consumer : Consumer) (seen : List Snapshot)
    (channel : Channel) : Prop where
  /-- Each snapshot counts more cycles than those before it. -/
  distinct : seen.Pairwise fun earlier later => earlier.cycles < later.cycles
  /-- Whatever the consumer goes on to do, it obtains some of the snapshots, in
  order and each once. -/
  inOrder : ∀ later : List ConsumerAct, (later.foldl Channel.act channel).received.Sublist seen
  /-- All that was put on the channel is there for a consumer that goes on
  receiving. -/
  available : ∀ n, channel.waiting.length ≤ n →
    ((List.replicate n ConsumerAct.receive).foldl Channel.act channel).received = channel.obtained
  /-- A snapshot is dropped exactly where it meets a closed or a full channel. -/
  dropped : ∀ i snapshot, seen[i]? = some snapshot →
    (snapshot ∉ channel.obtained ↔
      (Publishing.metAt consumer ⟨.empty capacity, 0⟩ seen i).isClosed = true ∨
        (Publishing.metAt consumer ⟨.empty capacity, 0⟩ seen i).waiting.length = capacity)

theorem published_foldl (capacity : Nat) (consumer : Consumer) {seen : List Snapshot}
    (h : seen.Pairwise fun earlier later => earlier.cycles < later.cycles) :
    Published capacity consumer seen
      (seen.foldl (Publishing.next consumer) ⟨.empty capacity, 0⟩).channel := by
  have hobtained := Publishing.obtained_foldl consumer ⟨.empty capacity, 0⟩ seen
  rw [show (Publishing.mk (.empty capacity) 0).channel.obtained = [] from rfl,
    List.nil_append] at hobtained
  constructor
  case distinct => exact h
  case inOrder =>
    intro later
    have hreceived := Channel.received_acts_sublist
      (seen.foldl (Publishing.next consumer) ⟨.empty capacity, 0⟩).channel later
    rw [hobtained] at hreceived
    exact hreceived.trans (Publishing.kept_sublist _ _ _)
  case available => exact fun n hn => Channel.received_all _ hn
  case dropped =>
    intro i snapshot hi
    have hnodup : seen.Nodup := h.imp fun hlt heq => absurd (heq ▸ hlt) (Nat.lt_irrefl _)
    have hfits : (Channel.empty capacity).Fits := Nat.zero_le capacity
    rw [hobtained, Publishing.mem_kept_iff hnodup hi, Bool.not_eq_false,
      Publishing.refuses_metAt_iff consumer seen i hfits]
    rfl

/-- The snapshots of a run count one cycle more each. -/
theorem Shown.pairwise_cycles {e : Engine} {stop : Stop} {s : State}
    {run : RunEnd (List Snapshot)} {done cut : List CycleReport}
    (h : Shown e stop s run done cut) :
    run.seen.Pairwise fun earlier later => earlier.cycles < later.cycles := by
  rw [List.pairwise_iff_getElem]
  intro i j hi hj hlt
  rw [h.cycles i _ (List.getElem?_eq_getElem hi), h.cycles j _ (List.getElem?_eq_getElem hj)]
  omega

/-- **A consumer never influences the run.**  In every history, whatever the
consumer of the channel does, a run that publishes leaves the engine as a run
with an onlooker who does nothing: the same attempts at the same instants, the
same reads, the same ledger and so the same snapshot returned.  The consumer
obtains snapshots of completed cycles in order and each once, and misses
exactly those that meet a closed or a full channel. -/
theorem consumer_without_influence (e : Engine) (waiting : List Arrival) (asked : List String)
    (visits : List Visit) (rest : Duration) (stop : Stop) (patience capacity : Nat)
    (consumer : Consumer) :
    let s := (e.history waiting asked visits).wait rest
    let alone := e.run stop patience (fun (seen : Unit) _ => seen) s ()
    let run := e.runWithChannel stop patience consumer (.empty capacity) s
    run.state = alone.state ∧ run.ending = alone.ending ∧
      Published capacity consumer (e.runCollecting stop patience s).seen run.seen.channel := by
  intro s alone run
  have hs : Reachable e waiting asked s := (history_reachable e waiting asked visits).wait rest
  obtain ⟨-, -, -, hany⟩ := run_turns e stop patience s
  have halone := hany (fun (seen : Unit) _ => seen) ()
  have hrun := hany (Publishing.next consumer) ⟨.empty capacity, 0⟩
  obtain ⟨done, cut, hshown⟩ := hs.shown stop patience
  refine ⟨?_, ?_, ?_⟩
  · exact (congrArg RunEnd.state hrun).trans (congrArg RunEnd.state halone).symm
  · exact (congrArg RunEnd.ending hrun).trans (congrArg RunEnd.ending halone).symm
  · rw [show run.seen.channel = _ from congrArg (fun r => r.seen.channel) hrun]
    exact published_foldl capacity consumer hshown.pairwise_cycles

end PathMeter.Engine
