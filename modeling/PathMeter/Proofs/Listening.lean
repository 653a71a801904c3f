import PathMeter.Engine.Listening
import PathMeter.Proofs.SendPass
import PathMeter.Proofs.Stage

/-!
# How listening goes on

While the engine listens only four things can happen: time passes, a reading
fails, the rest of the queue is left behind, or a datagram is taken in.
`Heard` says so, and `take_cases` says what the last of them does: a datagram
that answers an awaited probe is entered, any other is dropped.

The laws of listening come from these two.  A probe is awaited until the first
datagram that answers it (`Heard.mem_awaited_iff`).  That datagram is accepted
and no other is (`Heard.accepted_iff`).  The hop that it is entered for changes
by this one entry, and no other hop changes (`Heard.hop?_entered`,
`Heard.hop?_untouched`).
-/

namespace PathMeter

/-- What belongs to a cycle carries its number modulo 256. -/
theorem ProbeId.matchesCycle_iff {id : ProbeId} {cycle : Nat} :
    id.matchesCycle cycle = true ↔ id.cycle.toNat = cycle % 256 := by
  rw [matchesCycle, decide_eq_true_iff, ← UInt8.toNat_inj, UInt8.toNat_ofNat']

end PathMeter

namespace PathMeter.Engine

/-- A datagram answers the probe of a cycle to a hop. -/
def Answers (e : Engine) (cycle hop : Nat) (packet : List UInt8) : Prop :=
  ∃ reply, Reply.ofDatagram? e.identifier e.config.maxHops packet = some reply ∧
    reply.id.cycle.toNat = cycle % 256 ∧ reply.id.hop.toNat = hop

/-- A verdict that drops a datagram does not accept it. -/
theorem Verdict.ne_accepted {v : Verdict} (h : v.isAccepted = false) (reply : Reply)
    (d : Duration) : v ≠ .accepted reply d := by
  intro hv
  rw [hv] at h
  exact absurd h.symm Bool.false_ne_true

/-- How listening may go on from a start: time passes, a reading fails, the
rest of the queue is left behind, or a datagram is taken in. -/
inductive Heard (e : Engine) (cycle : Nat) (first : Listening) : Listening → Prop where
  | start : Heard e cycle first first
  | wait {l : Listening} (t : Duration) (h : Heard e cycle first l) :
      Heard e cycle first { l with state := l.state.waitUntil t }
  | fail {l : Listening} (h : Heard e cycle first l) :
      Heard e cycle first { l with isBroken := true }
  | leave {l : Listening} (queue : List Arrival) (h : Heard e cycle first l) :
      Heard e cycle first { l with state := { l.state with queue := queue } }
  | read {l : Listening} (due : Duration) (packet : List UInt8) (h : Heard e cycle first l) :
      Heard e cycle first (e.take cycle l due packet)

variable {e : Engine} {cycle : Nat}

/-- What a queue of deliveries can lead to. -/
theorem Heard.listenUntil {enough : Listening → Bool} {deadline : Duration} {first l : Listening}
    (h : Heard e cycle first l) (queue : List Arrival) :
    Heard e cycle first (e.listenUntil enough cycle deadline queue l).2 := by
  induction queue generalizing l with
  | nil =>
      unfold Engine.listenUntil
      split
      · exact h
      · exact h.wait _
  | cons a rest ih =>
      unfold Engine.listenUntil
      split
      · exact h
      · split
        · dsimp only
          split
          · exact (h.wait _).fail
          · exact ih ((h.wait _).read _ _)
        · exact h.wait _

/-- What waiting, leaving the queue and entering a reply preserve, listening
preserves. -/
theorem Heard.preserves {P : State → Prop} (hwait : ∀ s t, P s → P (s.waitUntil t))
    (hleave : ∀ s queue, P s → P { s with queue := queue })
    (hreply : ∀ s n ip d, P s →
      P (s.record (s.ledger.updateHop n fun h => h.recordReply ip d)))
    {first l : Listening} (h : Heard e cycle first l) (hfirst : P first.state) : P l.state := by
  induction h with
  | start => exact hfirst
  | wait t _ ih => exact hwait _ t ih
  | fail _ ih => exact ih
  | leave queue _ ih => exact hleave _ queue ih
  | @read l due packet _ ih =>
      unfold take
      dsimp only
      split
      · exact hreply _ _ _ _ ih
      · exact ih

/-- Everything that the engine listens to is heard. -/
theorem receiveUntil_heard (enough : Listening → Bool) (e : Engine) (cycle : Nat) (s : State)
    (awaited : List Awaited) :
    Heard e cycle (Listening.start s awaited) (e.receiveUntil enough cycle s awaited) :=
  (Heard.start.listenUntil _).leave _

/-- **What taking in a datagram does.**  Either it answers an awaited probe and
is entered, or it answers no awaited probe and is dropped. -/
theorem take_cases (e : Engine) (cycle : Nat) (l : Listening) (due : Duration)
    (packet : List UInt8) :
    (∃ reply a, Reply.ofDatagram? e.identifier e.config.maxHops packet = some reply ∧
      reply.id.cycle.toNat = cycle % 256 ∧ a ∈ l.awaited ∧ a.hop = reply.id.hop.toNat ∧
      e.take cycle l due packet =
        (l.note due packet (.accepted reply (l.state.clock - a.sentAt))).accept e.destination
          reply (l.state.clock - a.sentAt)) ∨
    (∃ verdict, verdict.isAccepted = false ∧ (∀ a ∈ l.awaited, ¬ Answers e cycle a.hop packet) ∧
      e.take cycle l due packet = (l.note due packet verdict).discard) := by
  unfold take judge
  cases hreply : Reply.ofDatagram? e.identifier e.config.maxHops packet with
  | none =>
      right
      refine ⟨.foreign, rfl, ?_, rfl⟩
      intro a _ hans
      obtain ⟨reply, hsome, -⟩ := hans
      simp [hreply] at hsome
  | some reply =>
      by_cases hcycle : reply.id.matchesCycle cycle = true
      · cases hfind : l.awaited.find? fun a => a.hop = reply.id.hop.toNat with
        | some a =>
            left
            have hhop := List.find?_some hfind
            refine ⟨reply, a, rfl, ProbeId.matchesCycle_iff.1 hcycle,
              List.mem_of_find?_eq_some hfind, of_decide_eq_true hhop, ?_⟩
            simp only [hcycle, hfind, if_true]
        | none =>
            right
            refine ⟨.unexpected reply, rfl, ?_, by simp only [hcycle, hfind, if_true]⟩
            intro a ha hans
            obtain ⟨reply', hsome, -, hhop⟩ := hans
            obtain rfl : reply = reply' := by simpa [hreply] using hsome
            exact List.find?_eq_none.1 hfind a ha (decide_eq_true hhop.symm)
      · right
        refine ⟨.stale reply, rfl, ?_, by simp [hcycle]⟩
        intro a _ hans
        obtain ⟨reply', hsome, hmatch, -⟩ := hans
        obtain rfl : reply = reply' := by simpa [hreply] using hsome
        exact hcycle (ProbeId.matchesCycle_iff.2 hmatch)

/-- Whatever a datagram turns out to be, it is noted with the instant of its
reading. -/
theorem reads_take (e : Engine) (cycle : Nat) (l : Listening) (due : Duration)
    (packet : List UInt8) :
    (e.take cycle l due packet).reads =
      l.reads ++ [⟨l.state.clock, due, packet, e.judge cycle l packet⟩] := by
  unfold take
  dsimp only
  split <;> rfl

theorem state_clock_take (e : Engine) (cycle : Nat) (l : Listening) (due : Duration)
    (packet : List UInt8) : (e.take cycle l due packet).state.clock = l.state.clock := by
  unfold take
  dsimp only
  split <;> rfl

section Laws

variable {s : State} {awaited : List Awaited} {l : Listening}

/-- **A probe is awaited until it is answered.** -/
theorem Heard.mem_awaited_iff (h : Heard e cycle (.start s awaited) l) {a : Awaited} :
    a ∈ l.awaited ↔ a ∈ awaited ∧ ∀ r ∈ l.reads, ¬ Answers e cycle a.hop r.packet := by
  induction h with
  | start => simp [Listening.start]
  | wait _ _ ih | fail _ ih | leave _ _ ih => exact ih
  | @read l due packet _ ih =>
      rcases take_cases e cycle l due packet with
        ⟨reply, b, hreply, hcycle, -, -, htake⟩ | ⟨verdict, -, hnone, htake⟩
      · have hanswers : Answers e cycle a.hop packet ↔ a.hop = reply.id.hop.toNat := by
          constructor
          · intro hans
            obtain ⟨reply', hsome, -, hhop⟩ := hans
            obtain rfl : reply = reply' := by simpa [hreply] using hsome
            exact hhop.symm
          · exact fun hhop => ⟨reply, hreply, hcycle, hhop.symm⟩
        rw [htake]
        simp only [Listening.accept, Listening.note, List.mem_filter, List.mem_append,
          List.mem_singleton, decide_eq_true_eq, ih]
        constructor
        · intro hopen
          obtain ⟨⟨ha, hreads⟩, hne⟩ := hopen
          refine ⟨ha, fun r hr => ?_⟩
          rcases hr with hr | rfl
          · exact hreads r hr
          · exact fun hans => hne (hanswers.1 hans)
        · intro hopen
          obtain ⟨ha, hreads⟩ := hopen
          refine ⟨⟨ha, fun r hr => hreads r (Or.inl hr)⟩, ?_⟩
          exact fun heq => hreads _ (Or.inr rfl) (hanswers.2 heq)
      · rw [htake]
        simp only [Listening.discard, Listening.note, List.mem_append, List.mem_singleton]
        constructor
        · intro ha
          refine ⟨(ih.1 ha).1, fun r hr => ?_⟩
          rcases hr with hr | rfl
          · exact (ih.1 ha).2 r hr
          · exact hnone a ha
        · exact fun ⟨ha, hreads⟩ => ih.2 ⟨ha, fun r hr => hreads r (Or.inl hr)⟩

/-- A list with one more element, split at an element: there, or before. -/
private theorem append_singleton_eq_append_cons {α : Type} {x y : α} {xs before after : List α}
    (h : xs ++ [x] = before ++ y :: after) :
    (xs = before ∧ x = y) ∨ ∃ rest, xs = before ++ y :: rest := by
  rcases List.eq_nil_or_concat after with rfl | ⟨rest, z, rfl⟩
  · obtain ⟨hxs, hx⟩ := List.append_inj' h rfl
    exact Or.inl ⟨hxs, List.cons.inj hx |>.1⟩
  · rw [List.concat_eq_append, ← List.cons_append, ← List.append_assoc] at h
    exact Or.inr ⟨rest, (List.append_inj' h rfl).1⟩

/-- **The first answer is accepted.**  A datagram that was read is accepted
just when it answers a probe that was awaited at the start and no datagram
read before it answers the same probe. -/
theorem Heard.accepted_iff (h : Heard e cycle (.start s awaited) l) {earlier later : List Read}
    {r : Read} (hreads : l.reads = earlier ++ r :: later) :
    r.verdict.isAccepted = true ↔
      ∃ hop, Answers e cycle hop r.packet ∧ (∃ a ∈ awaited, a.hop = hop) ∧
        ∀ r' ∈ earlier, ¬ Answers e cycle hop r'.packet := by
  induction h generalizing later with
  | start => simp [Listening.start] at hreads
  | wait _ _ ih | fail _ ih | leave _ _ ih => exact ih hreads
  | @read l due packet h ih =>
      rcases take_cases e cycle l due packet with
        ⟨reply, b, hreply, hcycle, hb, hhop, htake⟩ | ⟨verdict, hdropped, hnone, htake⟩
      · rw [htake] at hreads
        rcases append_singleton_eq_append_cons hreads with ⟨rfl, rfl⟩ | ⟨rest, hrest⟩
        · obtain ⟨hfirst, hopen⟩ := h.mem_awaited_iff.1 hb
          exact ⟨fun _ => ⟨b.hop, ⟨reply, hreply, hcycle, hhop.symm⟩, ⟨b, hfirst, rfl⟩, hopen⟩,
            fun _ => rfl⟩
        · exact ih hrest
      · rw [htake] at hreads
        rcases append_singleton_eq_append_cons hreads with ⟨rfl, rfl⟩ | ⟨rest, hrest⟩
        · constructor
          · intro haccepted
            exact absurd (hdropped.symm.trans haccepted) Bool.false_ne_true
          · intro hfirst
            obtain ⟨hop, hanswers, ⟨a, ha, rfl⟩, hopen⟩ := hfirst
            exact absurd hanswers (hnone a (h.mem_awaited_iff.2 ⟨ha, hopen⟩))
        · exact ih hrest

/-- An accepted datagram holds the reply that it was accepted for, the reply
answers an awaited probe, and the round trip began when that probe was sent. -/
theorem Heard.of_accepted (h : Heard e cycle (.start s awaited) l) {r : Read} {reply : Reply}
    {d : Duration} (hr : r ∈ l.reads) (hv : r.verdict = .accepted reply d) :
    Reply.ofDatagram? e.identifier e.config.maxHops r.packet = some reply ∧
      reply.id.cycle.toNat = cycle % 256 ∧
      ∃ a ∈ awaited, a.hop = reply.id.hop.toNat ∧ d = r.instant - a.sentAt := by
  induction h with
  | start => simp [Listening.start] at hr
  | wait _ _ ih | fail _ ih | leave _ _ ih => exact ih hr
  | @read l due packet h ih =>
      rcases take_cases e cycle l due packet with
        ⟨reply', b, hreply, hcycle, hb, hhop, htake⟩ | ⟨verdict, hdropped, -, htake⟩
      · rw [htake] at hr
        rcases List.mem_append.1 hr with hr | hr
        · exact ih hr
        · obtain rfl := List.mem_singleton.1 hr
          obtain ⟨rfl, rfl⟩ := Verdict.accepted.inj hv
          exact ⟨hreply, hcycle, b, (h.mem_awaited_iff.1 hb).1, hhop, rfl⟩
      · rw [htake] at hr
        rcases List.mem_append.1 hr with hr | hr
        · exact ih hr
        · obtain rfl := List.mem_singleton.1 hr
          exact absurd hv (Verdict.ne_accepted hdropped reply d)

/-- An accepted datagram answers the probe to the hop that it is entered for. -/
theorem Heard.answers_of_accepted (h : Heard e cycle (.start s awaited) l) {r : Read}
    {reply : Reply} {d : Duration} (hr : r ∈ l.reads) (hv : r.verdict = .accepted reply d) :
    Answers e cycle reply.id.hop.toNat r.packet := by
  obtain ⟨hreply, hcycle, -⟩ := h.of_accepted hr hv
  exact ⟨reply, hreply, hcycle, rfl⟩

/-- A probe still awaited has had nothing entered for its hop. -/
theorem Heard.ne_of_mem_awaited (h : Heard e cycle (.start s awaited) l) {a : Awaited}
    (ha : a ∈ l.awaited) {r : Read} (hr : r ∈ l.reads) {reply : Reply} {d : Duration}
    (hv : r.verdict = .accepted reply d) : reply.id.hop.toNat ≠ a.hop := by
  intro heq
  have hans := h.answers_of_accepted hr hv
  rw [heq] at hans
  exact (h.mem_awaited_iff.1 ha).2 r hr hans

/-- **No other hop changes.** -/
theorem Heard.hop?_untouched (h : Heard e cycle (.start s awaited) l) {n : Nat}
    (hn : ∀ r ∈ l.reads, ∀ reply d, r.verdict = .accepted reply d → reply.id.hop.toNat ≠ n) :
    l.state.ledger.hop? n = s.ledger.hop? n := by
  induction h with
  | start => rfl
  | wait _ _ ih | fail _ ih | leave _ _ ih => exact ih hn
  | @read l due packet h ih =>
      rcases take_cases e cycle l due packet with
        ⟨reply, b, -, -, -, -, htake⟩ | ⟨verdict, -, -, htake⟩
      · rw [htake] at hn ⊢
        have hne := hn _ (List.mem_append_right _ (List.mem_singleton.2 rfl)) _ _ rfl
        refine (Ledger.hop?_updateHop_of_ne _ hne.symm).trans ?_
        exact ih fun r hr => hn r (List.mem_append_left _ hr)
      · rw [htake] at hn ⊢
        exact ih fun r hr => hn r (List.mem_append_left _ hr)

/-- A hop whose probe is still awaited is as it was at the start. -/
theorem Heard.hop?_of_mem_awaited (h : Heard e cycle (.start s awaited) l) {a : Awaited}
    (ha : a ∈ l.awaited) : l.state.ledger.hop? a.hop = s.ledger.hop? a.hop :=
  h.hop?_untouched fun _ hr _ _ hv => h.ne_of_mem_awaited ha hr hv

/-- **A hop changes by its entry.** -/
theorem Heard.hop?_entered (h : Heard e cycle (.start s awaited) l) {r : Read} {reply : Reply}
    {d : Duration} (hr : r ∈ l.reads) (hv : r.verdict = .accepted reply d) :
    l.state.ledger.hop? reply.id.hop.toNat =
      (s.ledger.hop? reply.id.hop.toNat).map fun h => h.recordReply reply.responder d := by
  induction h with
  | start => simp [Listening.start] at hr
  | wait _ _ ih | fail _ ih | leave _ _ ih => exact ih hr
  | @read l due packet h ih =>
      rcases take_cases e cycle l due packet with
        ⟨reply', b, -, -, hb, hhop, htake⟩ | ⟨verdict, hdropped, -, htake⟩
      · rw [htake] at hr ⊢
        rcases List.mem_append.1 hr with hr | hr
        · have hne := h.ne_of_mem_awaited hb hr hv
          rw [hhop] at hne
          exact (Ledger.hop?_updateHop_of_ne _ hne).trans (ih hr)
        · obtain rfl := List.mem_singleton.1 hr
          obtain ⟨rfl, rfl⟩ := Verdict.accepted.inj hv
          -- the entry is the first for this hop, as its probe was still awaited
          have hfresh := h.hop?_of_mem_awaited hb
          rw [hhop] at hfresh
          exact (Ledger.hop?_updateHop_self ..).trans (congrArg _ hfresh)
      · rw [htake] at hr ⊢
        rcases List.mem_append.1 hr with hr | hr
        · exact ih hr
        · obtain rfl := List.mem_singleton.1 hr
          exact absurd hv (Verdict.ne_accepted hdropped reply d)

/-- **The renamed hops.**  Where every awaited probe is owed an answer, the
hops with a new responder are those whose address is not what it was at the
start, each once. -/
theorem Heard.renamed (h : Heard e cycle (.start s awaited) l) (howes : Owes s.ledger awaited) :
    l.renamed.Nodup ∧ ∀ n, n ∈ l.renamed ↔
      (l.state.ledger.hop? n).map (·.address) ≠ (s.ledger.hop? n).map (·.address) := by
  induction h with
  | start => simp [Listening.start]
  | wait _ _ ih | fail _ ih | leave _ _ ih => exact ih
  | @read l due packet h ih =>
      rcases take_cases e cycle l due packet with
        ⟨reply, b, -, -, hb, hhop, htake⟩ | ⟨verdict, -, -, htake⟩
      · obtain ⟨hnodup, hmem⟩ := ih
        rw [htake]
        have hfresh := h.hop?_of_mem_awaited hb
        obtain ⟨g, hg, hlt⟩ := howes b (h.mem_awaited_iff.1 hb).1
        rw [hhop] at hfresh hg
        have hold : reply.id.hop.toNat ∉ l.renamed := fun hin =>
          (hmem _).1 hin (by rw [hfresh])
        have hchanges : l.changes reply.id.hop.toNat reply.responder =
            decide (g.address ≠ some reply.responder) := by
          simp [Listening.changes, hfresh, hg, Hop.changedBy, Hop.expectsReply, hlt]
        constructor
        · show (if l.changes reply.id.hop.toNat reply.responder = true then
            l.renamed ++ [reply.id.hop.toNat] else l.renamed).Nodup
          split
          · rw [List.nodup_append]
            refine ⟨hnodup, by simp, ?_⟩
            intro n hn m hm heq
            rw [heq, List.mem_singleton.1 hm] at hn
            exact hold hn
          · exact hnodup
        · intro n
          show n ∈ (if l.changes reply.id.hop.toNat reply.responder = true then
            l.renamed ++ [reply.id.hop.toNat] else l.renamed) ↔
              ((l.state.ledger.updateHop reply.id.hop.toNat fun h =>
                h.recordReply reply.responder (l.state.clock - b.sentAt)).hop? n).map _ ≠ _
          by_cases hn : n = reply.id.hop.toNat
          · subst hn
            rw [Ledger.hop?_updateHop_self, hfresh, hg, hchanges]
            simp only [Option.map_some, Hop.recordReply_of_lt hlt]
            by_cases haddr : g.address = some reply.responder
            · simp [haddr, hold]
            · simp [haddr, Ne.symm haddr]
          · rw [Ledger.hop?_updateHop_of_ne _ hn, ← hmem n]
            split
            · simp [hn]
            · rfl
      · rw [htake]
        exact ih

/-- The round trip of a datagram that was entered for a hop. -/
def Read.roundTrip? (n : Nat) (r : Read) : Option Duration :=
  match r.verdict with
  | .accepted reply d => if reply.id.hop.toNat = n then some d else none
  | _ => none

/-- **The sample of a hop** grows by the round trips entered for it, in the
order of reading. -/
theorem Heard.samples (h : Heard e cycle (.start s awaited) l) (howes : Owes s.ledger awaited)
    (n : Nat) :
    (l.state.ledger.hop? n).map (·.samples) =
      (s.ledger.hop? n).map fun h => h.samples ++ l.reads.filterMap (Read.roundTrip? n) := by
  induction h with
  | start => simp [Listening.start]
  | wait _ _ ih | fail _ ih | leave _ _ ih => exact ih
  | @read l due packet h ih =>
      rcases take_cases e cycle l due packet with
        ⟨reply, b, -, -, hb, hhop, htake⟩ | ⟨verdict, hdropped, -, htake⟩
      · rw [htake]
        show ((l.state.ledger.updateHop reply.id.hop.toNat fun h =>
          h.recordReply reply.responder (l.state.clock - b.sentAt)).hop? n).map _ =
            (s.ledger.hop? n).map fun h => h.samples ++
              (l.reads ++ [Read.mk l.state.clock due packet
                (.accepted reply (l.state.clock - b.sentAt))]).filterMap (Read.roundTrip? n)
        by_cases hn : n = reply.id.hop.toNat
        · subst hn
          have hfresh := h.hop?_of_mem_awaited hb
          obtain ⟨g, hg, hlt⟩ := howes b (h.mem_awaited_iff.1 hb).1
          rw [hhop] at hfresh hg
          rw [hfresh, hg] at ih
          rw [Ledger.hop?_updateHop_self, hfresh, hg]
          simp only [Option.map_some, Hop.recordReply_of_lt hlt, List.filterMap_append,
            ← List.append_assoc, Option.some.injEq] at ih ⊢
          rw [← ih]
          simp [Read.roundTrip?]
        · rw [Ledger.hop?_updateHop_of_ne _ hn, ih]
          simp [Read.roundTrip?, Ne.symm hn]
      · rw [htake]
        show (l.state.ledger.hop? n).map _ = (s.ledger.hop? n).map fun h => h.samples ++
          (l.reads ++ [Read.mk l.state.clock due packet verdict]).filterMap (Read.roundTrip? n)
        have hnone : Read.roundTrip? n ⟨l.state.clock, due, packet, verdict⟩ = none := by
          cases verdict <;> first | rfl | simp [Verdict.isAccepted] at hdropped
        rw [List.filterMap_append, List.filterMap_cons_none hnone, List.filterMap_nil,
          List.append_nil]
        exact ih

/-- **Every datagram is counted once**, as entered or as dropped. -/
theorem Heard.counts (h : Heard e cycle (.start s awaited) l) :
    l.accepted = l.reads.countP (·.verdict.isAccepted) ∧
      l.accepted + l.discarded = l.reads.length := by
  induction h with
  | start => exact ⟨rfl, rfl⟩
  | wait _ _ ih | fail _ ih | leave _ _ ih => exact ih
  | @read l due packet _ ih =>
      rcases take_cases e cycle l due packet with
        ⟨reply, b, -, -, -, -, htake⟩ | ⟨verdict, hdropped, -, htake⟩
      · rw [htake]
        constructor
        · show l.accepted + 1 = (l.reads ++ [_]).countP _
          rw [List.countP_append, ← ih.1]
          rfl
        · show l.accepted + 1 + l.discarded = (l.reads ++ [_]).length
          rw [List.length_append, ← ih.2, List.length_singleton]
          omega
      · rw [htake]
        constructor
        · show l.accepted = (l.reads ++ [_]).countP _
          rw [List.countP_append, ← ih.1, List.countP_singleton, hdropped]
          rfl
        · show l.accepted + (l.discarded + 1) = (l.reads ++ [_]).length
          rw [List.length_append, ← ih.2]
          rfl

/-- The clock of a listening engine does not go back. -/
theorem Heard.clock_le (h : Heard e cycle (.start s awaited) l) :
    s.clock ≤ l.state.clock ∧ ∀ r ∈ l.reads, s.clock ≤ r.instant := by
  induction h with
  | start => exact ⟨Nat.le_refl _, by simp [Listening.start]⟩
  | wait t _ ih => exact ⟨Nat.le_trans ih.1 (Nat.le_max_left ..), ih.2⟩
  | fail _ ih | leave _ _ ih => exact ih
  | @read l due packet _ ih =>
      rw [state_clock_take, reads_take]
      refine ⟨ih.1, ?_⟩
      intro r hr
      rcases List.mem_append.1 hr with hr | hr
      · exact ih.2 r hr
      · rw [List.mem_singleton.1 hr]
        exact ih.1

end Laws

/-- What one reading of the socket yields: the first bytes of a datagram, or
nothing. -/
def Arrival.packet? (a : Arrival) : Option (List UInt8) :=
  match a.delivery with
  | .datagram bytes => some (bytes.take readLimit)
  | .failure => none

/-- **What is read was delivered.**  The datagrams read are those at the head of
the queue, in its order, and the rest of the queue is left. -/
theorem listenUntil_reads (enough : Listening → Bool) (e : Engine) (cycle : Nat)
    (deadline : Duration) (queue : List Arrival) (l : Listening) :
    ∃ taken, queue = taken ++ (e.listenUntil enough cycle deadline queue l).1 ∧
      (e.listenUntil enough cycle deadline queue l).2.reads.map (fun r => (r.due, r.packet)) =
        l.reads.map (fun r => (r.due, r.packet)) ++
          taken.filterMap fun a => a.packet?.map fun packet => (a.due, packet) := by
  induction queue generalizing l with
  | nil =>
      unfold listenUntil
      split <;> exact ⟨[], rfl, by simp⟩
  | cons a rest ih =>
      unfold listenUntil
      split
      · exact ⟨[], rfl, by simp⟩
      · split
        · dsimp only
          cases hdelivery : a.delivery with
          | failure => exact ⟨[a], rfl, by simp [Arrival.packet?, hdelivery]⟩
          | datagram bytes =>
              obtain ⟨taken, hrest, hreads⟩ := ih (e.take cycle
                { l with state := l.state.waitUntil a.due } a.due (bytes.take readLimit))
              refine ⟨a :: taken, congrArg _ hrest, ?_⟩
              rw [hreads, reads_take]
              simp [Arrival.packet?, hdelivery]
        · exact ⟨[], rfl, by simp⟩

/-- **When a datagram is read.**  Out of a queue in order every datagram is read
at once when it is due, or at the start if it was due before. -/
theorem listenUntil_instant {enough : Listening → Bool} {deadline first : Duration}
    {queue : List Arrival} {l : Listening} (hq : InOrder queue) (hfirst : first ≤ l.state.clock)
    (hdue : ∀ a ∈ queue, l.state.clock ≤ max first a.due)
    (hreads : ∀ r ∈ l.reads, r.instant = max first r.due) :
    ∀ r ∈ (e.listenUntil enough cycle deadline queue l).2.reads, r.instant = max first r.due := by
  induction queue generalizing l with
  | nil =>
      unfold listenUntil
      split <;> exact hreads
  | cons a rest ih =>
      obtain ⟨ha, hrest⟩ := List.pairwise_cons.1 hq
      unfold listenUntil
      split
      · exact hreads
      · split
        · dsimp only
          split
          · exact hreads
          · -- the clock has not run ahead of the queue, only to `first`
            have hnow : max l.state.clock a.due = max first a.due := by
              have := hdue a List.mem_cons_self
              exact Nat.le_antisymm (Nat.max_le.2 ⟨this, Nat.le_max_right ..⟩)
                (Nat.max_le.2 ⟨Nat.le_trans hfirst (Nat.le_max_left ..), Nat.le_max_right ..⟩)
            apply ih hrest
            · rw [state_clock_take]
              exact Nat.le_trans hfirst (Nat.le_max_left ..)
            · intro b hb
              rw [state_clock_take]
              show max l.state.clock a.due ≤ _
              rw [hnow]
              exact Nat.max_le.2 ⟨Nat.le_max_left ..,
                Nat.le_trans (ha b hb) (Nat.le_max_right ..)⟩
            · intro r hr
              rw [reads_take] at hr
              rcases List.mem_append.1 hr with hr | hr
              · exact hreads r hr
              · rw [List.mem_singleton.1 hr]
                exact hnow
        · exact hreads

end PathMeter.Engine
