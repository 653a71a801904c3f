import PathMeter.Engine.Rehearsal
import PathMeter.Proofs.Reachable

/-!
# The early stop loses nothing

Once the target has answered for a hop, the engine does not wait for the hops
behind it.  Listening on would change nothing that is shown: this file compares
`receive` with `receivePlainly`, which has no early stop, from every state that
a send pass can end in and for every queue.

The two loops take the same steps until the first of them is settled.  From
then on only probes to hops behind `d`, the lowest hop that the target answered
for, are awaited (`Settled`), and whatever the plain loop still reads leaves
the hops up to `d` as they are (`Settled.listenUntil`).  The path ends at `d`
or before, so it is the same path.
-/

namespace PathMeter

namespace Snapshot

/-- A path is decided by the hops up to one that the target answered for. -/
theorem pathTo_congr {destination : IPv4} {xs ys : List HopView} {i : Nat}
    (hsame : ∀ j, j ≤ i → xs[j]? = ys[j]?)
    (hend : ∃ h, xs[i]? = some h ∧ h.address = some destination) :
    pathTo destination xs = pathTo destination ys := by
  induction i generalizing xs ys with
  | zero =>
      obtain ⟨h, hx, haddress⟩ := hend
      have hy := (hsame 0 (Nat.le_refl 0)).symm.trans hx
      obtain ⟨xs, rfl⟩ : ∃ rest, xs = h :: rest := by
        cases xs with
        | nil => simp at hx
        | cons x rest => exact ⟨rest, by simpa using hx⟩
      obtain ⟨ys, rfl⟩ : ∃ rest, ys = h :: rest := by
        cases ys with
        | nil => simp at hy
        | cons y rest => exact ⟨rest, by simpa using hy⟩
      simp [pathTo, haddress]
  | succ i ih =>
      have hzero := hsame 0 (Nat.zero_le _)
      cases xs with
      | nil => simp at hend
      | cons x xs =>
          cases ys with
          | nil => simp at hzero
          | cons y ys =>
              obtain rfl : x = y := by simpa using hzero
              have htail : pathTo destination xs = pathTo destination ys :=
                ih (fun j hj => by simpa using hsame (j + 1) (Nat.succ_le_succ hj))
                  (by simpa using hend)
              simp only [pathTo, htail]

end Snapshot

namespace Ledger

/-- Two ledgers of one target show the same path if they agree on all hops up
to one that the target answered for. -/
theorem path_eq_of_hop?_eq {l l' : Ledger} {d : Nat} (hdest : l.destination = l'.destination)
    (hsame : ∀ n, n ≤ d → l.hop? n = l'.hop? n)
    (hend : ∃ h, l.hop? d = some h ∧ h.address = some l.destination) :
    l.finalize.snapshot.path = l'.finalize.snapshot.path := by
  obtain ⟨h, hh, haddress⟩ := hend
  have hd : d ≠ 0 := by
    intro hzero
    simp [hzero, hop?] at hh
  obtain ⟨i, rfl⟩ : ∃ i, d = i + 1 := ⟨d - 1, by omega⟩
  have hview : ∀ (m : Ledger) (j : Nat), m.finalize.snapshot.hops[j]? =
      (m.hop? (j + 1)).map fun h => h.finalize.view := by
    intro m j
    simp [Ledger.snapshot, Ledger.finalize, Ledger.updateAll, hop?, Function.comp_def]
  have hpath : ∀ m : Ledger, m.finalize.snapshot.path =
      Snapshot.pathTo m.destination m.finalize.snapshot.hops := fun _ => rfl
  rw [hpath, hpath, ← hdest]
  apply Snapshot.pathTo_congr (i := i)
  · intro j hj
    rw [hview, hview, hsame (j + 1) (Nat.succ_le_succ hj)]
  · exact ⟨h.finalize.view, by rw [hview, hh]; rfl, haddress⟩

end Ledger

end PathMeter

namespace PathMeter.Engine

/-- The target answered for a hop: a datagram of its was accepted for it. -/
def TargetAnswers (e : Engine) (l : Listening) (n : Nat) : Prop :=
  ∃ r ∈ l.reads, r.verdict.isAccepted = true ∧
    ∃ reply, Reply.ofDatagram? e.identifier e.config.maxHops r.packet = some reply ∧
      reply.responder = e.destination ∧ reply.id.hop.toNat = n

/-- The lowest hop that the target answered for. -/
def LowestAnswered (e : Engine) (l : Listening) (d : Nat) : Prop :=
  TargetAnswers e l d ∧ ∀ n, TargetAnswers e l n → d ≤ n

variable {e : Engine} {cycle : Nat}

/-- One more datagram is one more chance for the target to have answered. -/
theorem targetAnswers_append {l l' : Listening} {r : Read} (hreads : l'.reads = l.reads ++ [r])
    {n : Nat} :
    TargetAnswers e l' n ↔ TargetAnswers e l n ∨ (r.verdict.isAccepted = true ∧
      ∃ reply, Reply.ofDatagram? e.identifier e.config.maxHops r.packet = some reply ∧
        reply.responder = e.destination ∧ reply.id.hop.toNat = n) := by
  simp only [TargetAnswers, hreads, List.mem_append, List.mem_singleton]
  constructor
  · intro hans
    obtain ⟨r', hr | rfl, h⟩ := hans
    · exact Or.inl ⟨r', hr, h⟩
    · exact Or.inr h
  · intro hans
    rcases hans with ⟨r', hr, h⟩ | h
    · exact ⟨r', Or.inl hr, h⟩
    · exact ⟨r, Or.inr rfl, h⟩

/-- The running minimum is the lowest hop that the target answered for. -/
theorem Heard.lowest {s : State} {awaited : List Awaited} {l : Listening}
    (h : Heard e cycle (.start s awaited) l) :
    (l.lowest = none → ∀ n, ¬ TargetAnswers e l n) ∧
      ∀ d, l.lowest = some d → LowestAnswered e l d := by
  induction h with
  | start => simp [Listening.start, TargetAnswers]
  | wait _ _ ih | fail _ ih | leave _ _ ih => exact ih
  | @read l due packet _ ih =>
      obtain ⟨hnone, hsome⟩ := ih
      rcases take_cases e cycle l due packet with
        ⟨reply, a, hreply, -, -, -, htake⟩ | ⟨verdict, hdropped, -, htake⟩
      · have hnext : ∀ n, TargetAnswers e (e.take cycle l due packet) n ↔
            TargetAnswers e l n ∨
              (reply.responder = e.destination ∧ reply.id.hop.toNat = n) := by
          intro n
          rw [targetAnswers_append (e := e) (by rw [htake]; rfl)]
          simp [Verdict.isAccepted, hreply]
        have hlowest : (e.take cycle l due packet).lowest =
            if reply.responder = e.destination then
              Listening.lower l.lowest reply.id.hop.toNat else l.lowest := by
          rw [htake]
          rfl
        simp only [hnext, hlowest, LowestAnswered]
        by_cases htarget : reply.responder = e.destination
        · simp only [htarget, if_true, true_and]
          cases hl : l.lowest with
          | none =>
              refine ⟨by simp [Listening.lower], ?_⟩
              intro d hd
              obtain rfl : reply.id.hop.toNat = d := Option.some.inj hd
              refine ⟨Or.inr rfl, ?_⟩
              intro n hn
              rcases hn with hn | rfl
              · exact absurd hn (hnone hl n)
              · exact Nat.le_refl _
          | some d =>
              obtain ⟨hd, hleast⟩ := hsome d hl
              refine ⟨by simp [Listening.lower], ?_⟩
              intro d' hd'
              obtain rfl : min d reply.id.hop.toNat = d' := Option.some.inj hd'
              constructor
              · rcases Nat.le_total d reply.id.hop.toNat with hle | hle
                · exact Or.inl (by rwa [Nat.min_eq_left hle])
                · exact Or.inr (Nat.min_eq_right hle).symm
              · intro n hn
                rcases hn with hn | rfl
                · exact Nat.le_trans (Nat.min_le_left ..) (hleast n hn)
                · exact Nat.min_le_right ..
        · simp only [htarget, if_false, false_and, or_false]
          exact ⟨hnone, hsome⟩
      · have hnext : ∀ n, TargetAnswers e (e.take cycle l due packet) n ↔
            TargetAnswers e l n := by
          intro n
          rw [targetAnswers_append (e := e) (by rw [htake]; rfl)]
          simp [hdropped]
        have hlowest : (e.take cycle l due packet).lowest = l.lowest := by
          rw [htake]
          rfl
        simp only [hnext, hlowest, LowestAnswered]
        exact ⟨hnone, hsome⟩

/-- Only probes to hops behind the lowest one answered by the target are still
awaited. -/
structure Settled (d : Nat) (l : Listening) : Prop where
  lowest : l.lowest = some d
  behind : ∀ a ∈ l.awaited, d < a.hop

/-- What is taken in after that leaves the hops up to the lowest alone. -/
theorem Settled.take {d : Nat} {l : Listening} (h : Settled d l) (e : Engine) (cycle : Nat)
    (due : Duration) (packet : List UInt8) :
    Settled d (e.take cycle l due packet) ∧ ∀ n, n ≤ d →
      (e.take cycle l due packet).state.ledger.hop? n = l.state.ledger.hop? n := by
  rcases take_cases e cycle l due packet with
    ⟨reply, a, -, -, ha, hhop, htake⟩ | ⟨verdict, -, -, htake⟩
  · have hlt : d < reply.id.hop.toNat := hhop ▸ h.behind a ha
    rw [htake]
    refine ⟨⟨?_, fun b hb => h.behind b (List.mem_filter.1 hb).1⟩, ?_⟩
    · show (if reply.responder = e.destination then
        Listening.lower l.lowest reply.id.hop.toNat else l.lowest) = some d
      rw [h.lowest, Listening.lower, Nat.min_eq_left (Nat.le_of_lt hlt), ite_self]
    · intro n hn
      exact Ledger.hop?_updateHop_of_ne _ (Nat.ne_of_lt (Nat.lt_of_le_of_lt hn hlt))
  · rw [htake]
    exact ⟨⟨h.lowest, h.behind⟩, fun _ _ => rfl⟩

/-- Whatever is still in the queue leaves the hops up to the lowest alone. -/
theorem Settled.listenUntil {d : Nat} {l : Listening} (h : Settled d l)
    (enough : Listening → Bool) (e : Engine) (cycle : Nat) (deadline : Duration)
    (queue : List Arrival) :
    Settled d (e.listenUntil enough cycle deadline queue l).2 ∧ ∀ n, n ≤ d →
      (e.listenUntil enough cycle deadline queue l).2.state.ledger.hop? n =
        l.state.ledger.hop? n := by
  induction queue generalizing l with
  | nil =>
      unfold Engine.listenUntil
      split
      · exact ⟨h, fun _ _ => rfl⟩
      · exact ⟨⟨h.lowest, h.behind⟩, fun _ _ => rfl⟩
  | cons a rest ih =>
      unfold Engine.listenUntil
      split
      · exact ⟨h, fun _ _ => rfl⟩
      · split
        · dsimp only
          split
          · exact ⟨⟨h.lowest, h.behind⟩, fun _ _ => rfl⟩
          · next bytes hbytes =>
            have hwait : Settled d { l with state := l.state.waitUntil a.due } :=
              ⟨h.lowest, h.behind⟩
            obtain ⟨htake, hsame⟩ := hwait.take e cycle a.due (bytes.take readLimit)
            obtain ⟨hend, hrest⟩ := ih htake
            exact ⟨hend, fun n hn => (hrest n hn).trans (hsame n hn)⟩
        · exact ⟨⟨h.lowest, h.behind⟩, fun _ _ => rfl⟩

theorem Listening.isSettled_iff {l : Listening} :
    l.isSettled = true ↔ l.isAnswered = true ∨ ∃ d, Settled d l := by
  unfold isSettled
  rw [Bool.or_eq_true]
  apply or_congr_right
  cases hlowest : l.lowest with
  | none => simpa using fun d h => by simpa [hlowest] using h.lowest
  | some d =>
      simp only [List.all_eq_true, decide_eq_true_eq]
      constructor
      · exact fun hall => ⟨d, hlowest, hall⟩
      · intro hsettled
        obtain ⟨d', h⟩ := hsettled
        obtain rfl : d = d' := Option.some.inj (hlowest.symm.trans h.lowest)
        exact h.behind

theorem Listening.isSettled_eq {l : Listening} (h : ¬ ∃ d, Settled d l) :
    l.isSettled = l.isAnswered := by
  rw [Bool.eq_iff_iff, isSettled_iff]
  exact or_iff_left h

/-- From where they are settled, the two loops agree on the hops up to the
lowest. -/
theorem both_settled {l : Listening} (h : ∃ d, Settled d l) (e : Engine) (cycle : Nat)
    (deadline : Duration) (queue : List Arrival) :
    ∃ d, Settled d (e.listenUntil Listening.isSettled cycle deadline queue l).2 ∧
      Settled d (e.listenUntil Listening.isAnswered cycle deadline queue l).2 ∧
      ∀ n, n ≤ d →
        (e.listenUntil Listening.isSettled cycle deadline queue l).2.state.ledger.hop? n =
          (e.listenUntil Listening.isAnswered cycle deadline queue l).2.state.ledger.hop? n := by
  obtain ⟨d, h⟩ := h
  obtain ⟨hearly, hsame⟩ := h.listenUntil Listening.isSettled e cycle deadline queue
  obtain ⟨hplain, hsame'⟩ := h.listenUntil Listening.isAnswered e cycle deadline queue
  exact ⟨d, hearly, hplain, fun n hn => (hsame n hn).trans (hsame' n hn).symm⟩

/-- **The two loops side by side.**  Either they end alike, or both are settled
at the same lowest hop and agree on the hops up to it. -/
theorem listenUntil_settled_or_eq (e : Engine) (cycle : Nat) (deadline : Duration)
    (queue : List Arrival) (l : Listening) :
    e.listenUntil Listening.isSettled cycle deadline queue l =
        e.listenUntil Listening.isAnswered cycle deadline queue l ∨
      ∃ d, Settled d (e.listenUntil Listening.isSettled cycle deadline queue l).2 ∧
        Settled d (e.listenUntil Listening.isAnswered cycle deadline queue l).2 ∧
        ∀ n, n ≤ d →
          (e.listenUntil Listening.isSettled cycle deadline queue l).2.state.ledger.hop? n =
            (e.listenUntil Listening.isAnswered cycle deadline queue l).2.state.ledger.hop? n := by
  induction queue generalizing l with
  | nil =>
      by_cases hsettled : ∃ d, Settled d l
      · exact Or.inr (both_settled hsettled e cycle deadline [])
      · left
        unfold listenUntil
        rw [Listening.isSettled_eq hsettled]
  | cons a rest ih =>
      by_cases hsettled : ∃ d, Settled d l
      · exact Or.inr (both_settled hsettled e cycle deadline (a :: rest))
      · -- not settled yet, so both loops ask the same and take the same step
        unfold listenUntil
        rw [Listening.isSettled_eq hsettled]
        split
        · exact Or.inl rfl
        · split
          · dsimp only
            split
            · exact Or.inl rfl
            · exact ih _
          · exact Or.inl rfl

/-- At the end, the lowest hop that the target answered for has its address. -/
theorem Heard.address_lowest {s : State} {awaited : List Awaited} {l : Listening}
    (h : Heard e cycle (.start s awaited) l) (howes : Owes s.ledger awaited) {d : Nat}
    (hd : l.lowest = some d) :
    ∃ hop, l.state.ledger.hop? d = some hop ∧ hop.address = some e.destination := by
  obtain ⟨r, hr, hv, reply, hreply, htarget, rfl⟩ := (h.lowest.2 d hd).1
  cases hverdict : r.verdict with
  | accepted reply' roundTrip =>
      obtain ⟨hreply', -, a, ha, hhop, -⟩ := h.of_accepted hr hverdict
      obtain rfl : reply' = reply := Option.some.inj (hreply'.symm.trans hreply)
      obtain ⟨g, hg, hlt⟩ := howes a ha
      have hentered := h.hop?_entered hr hverdict
      rw [← hhop, hg, Option.map_some, Hop.recordReply_of_lt hlt] at hentered
      exact ⟨_, hhop ▸ hentered, congrArg some htarget⟩
  | _ => simp [hverdict, Verdict.isAccepted] at hv

/-- After a send pass, too, the two loops end alike or settled. -/
theorem receive_settled_or_eq (e : Engine) (cycle : Nat) (s : State) (awaited : List Awaited) :
    e.receive cycle s awaited = e.receivePlainly cycle s awaited ∨
      ∃ d, Settled d (e.receive cycle s awaited) ∧ Settled d (e.receivePlainly cycle s awaited) ∧
        ∀ k, k ≤ d → (e.receive cycle s awaited).state.ledger.hop? k =
          (e.receivePlainly cycle s awaited).state.ledger.hop? k := by
  rcases listenUntil_settled_or_eq e cycle (s.clock + e.config.timeout) s.queue
    (.start s awaited) with heq | ⟨d, hd, hd', hsame⟩
  · left
    show receiveUntil .. = receiveUntil ..
    unfold receiveUntil
    rw [heq]
  · exact Or.inr ⟨d, ⟨hd.lowest, hd.behind⟩, ⟨hd'.lowest, hd'.behind⟩, hsame⟩

/-- What is heard up to the lowest hop that the target answered for decides the
path. -/
theorem Heard.path_eq {s : State} {awaited : List Awaited} {l l' : Listening}
    (h : Heard e cycle (.start s awaited) l) (h' : Heard e cycle (.start s awaited) l')
    (howes : Owes s.ledger awaited) (hdest : s.ledger.destination = e.destination) {d : Nat}
    (hd : l.lowest = some d)
    (hsame : ∀ k, k ≤ d → l.state.ledger.hop? k = l'.state.ledger.hop? k) :
    l.state.finalize.snapshot.path = l'.state.finalize.snapshot.path := by
  apply Ledger.path_eq_of_hop?_eq (h.destination.trans h'.destination.symm) hsame
  rw [h.destination, hdest]
  exact h.address_lowest howes hd

/-- **The early stop loses nothing on the path.**  After any send pass from a
reachable state, and for every queue, listening with the early stop and
without it end with the same hops if the target answered in neither.  If it
answered in one, it answered in both, for the same lowest hop; the hops up to
that one are the same, and so is the path. -/
theorem early_stop_loses_nothing (e : Engine) (stop : Stop) (cycle : Nat) (queue : List Arrival)
    {waiting : List Arrival} {asked : List String} {s : State} (hs : Reachable e waiting asked s) :
    let pass := e.sendPass stop cycle e.hops s []
    let before : State := { pass.state with queue := queue }
    let early := e.receive cycle before pass.awaited
    let plain := e.receivePlainly cycle before pass.awaited
    ((∀ n, ¬ TargetAnswers e early n) → (∀ n, ¬ TargetAnswers e plain n) →
      early.state.ledger.hops = plain.state.ledger.hops) ∧
    ∀ n, TargetAnswers e early n ∨ TargetAnswers e plain n →
      ∃ d, LowestAnswered e early d ∧ LowestAnswered e plain d ∧
        (∀ k, k ≤ d → early.state.ledger.hop? k = plain.state.ledger.hop? k) ∧
        early.state.finalize.snapshot.path = plain.state.finalize.snapshot.path := by
  intro pass before early plain
  have howes : Owes before.ledger pass.awaited := sendPass_owes_hops e stop cycle hs.sound
  have hdest : before.ledger.destination = e.destination :=
    sendPass_destination.trans hs.destination
  have hearly : Heard e cycle (.start before pass.awaited) early := receiveUntil_heard ..
  have hplain : Heard e cycle (.start before pass.awaited) plain := receiveUntil_heard ..
  constructor
  · intro hnone _
    rcases receive_settled_or_eq e cycle before pass.awaited with heq | ⟨d, hd, -, -⟩
    · exact congrArg (·.state.ledger.hops) heq
    · exact absurd (hearly.lowest.2 d hd.lowest).1 (hnone d)
  · intro n hn
    obtain ⟨d, hd, hd', hsame⟩ : ∃ d, early.lowest = some d ∧ plain.lowest = some d ∧
        ∀ k, k ≤ d → early.state.ledger.hop? k = plain.state.ledger.hop? k := by
      rcases receive_settled_or_eq e cycle before pass.awaited with heq | ⟨d, hd, hd', hsame⟩
      · have heq : early = plain := heq
        rw [← heq, or_self_iff] at hn
        cases hlowest : early.lowest with
        | none => exact absurd hn (hearly.lowest.1 hlowest n)
        | some d => exact ⟨d, rfl, heq ▸ hlowest, fun _ _ => by rw [heq]⟩
      · exact ⟨d, hd.lowest, hd'.lowest, hsame⟩
    exact ⟨d, hearly.lowest.2 d hd, hplain.lowest.2 d hd', hsame,
      hearly.path_eq hplain howes hdest hd hsame⟩

/-- A path whose second and third hops are both answered for by the target. -/
def nearTrial : Engine :=
  trial 3 0 [.plain 1 (5 * Duration.millisecond) ⟨192, 168, 1, 1⟩,
    .plain 2 (10 * Duration.millisecond) ⟨8, 8, 8, 8⟩,
    .plain 3 (30 * Duration.millisecond) ⟨8, 8, 8, 8⟩]

/-- The early stop saves a reading, and the path is the same. -/
theorem early_stop_saves_reading :
    let s := nearTrial.start [] []
    let pass := nearTrial.sendPass .never 0 nearTrial.hops s []
    let before : State := { pass.state with queue := pass.state.queue }
    let early := nearTrial.receive 0 before pass.awaited
    let plain := nearTrial.receivePlainly 0 before pass.awaited
    Reachable nearTrial [] [] s ∧ early.reads.length = 2 ∧ plain.reads.length = 3 ∧
      early.state.finalize.snapshot.path = plain.state.finalize.snapshot.path := by
  intro s pass before early plain
  have hs : Reachable nearTrial [] [] s := .start
  have hheard : Heard nearTrial 0 (.start before pass.awaited) early := receiveUntil_heard ..
  have htarget : TargetAnswers nearTrial early 2 := (hheard.lowest.2 2 (by decide +kernel)).1
  obtain ⟨d, -, -, -, hpath⟩ :=
    (early_stop_loses_nothing nearTrial .never 0 pass.state.queue hs).2 2 (Or.inl htarget)
  exact ⟨hs, by decide +kernel, by decide +kernel, hpath⟩

end PathMeter.Engine
