import PathMeter.Export.Csv
import PathMeter.Export.Report
import PathMeter.Proofs.Copies
import PathMeter.Proofs.Staircase

/-!
# Tables without gaps

Both tables list the hops on the path and leave out those that were never
probed.  As sends go down from hop to hop, the hops left out are the last
ones, so the rows are the first hops of the snapshot, numbered from one without
gaps: as far as the target answered, or as far as anything was sent, whichever
is nearer (`Gapless`).  This holds of every ledger that an engine has, in the
middle of a pass as well, and so of every snapshot that it shows and returns.

A reader beside the engine copies the hops one by one, and probes may go out in
between.  If one of them is the first that a hop is sent, the copy may have hops
that were probed behind one that was not yet, and then a row is missing
(`hop_missing_in_copy`).  This takes a copy from before the first completed
cycle: whoever finds one completed finds no hop without a probe.
-/

namespace PathMeter

namespace Snapshot

/-- The number of the first hop that the target itself answered for; of the last
hop while the target is silent. -/
def firstReached (s : Snapshot) : Nat :=
  ((s.hops.find? fun h => h.address = some s.destination).map (·.number)).getD s.hops.length

/-- The number of the last hop that was ever sent to, or zero. -/
def lastProbed (s : Snapshot) : Nat :=
  ((s.hops.filter fun h => h.sent ≠ 0).getLast?.map (·.number)).getD 0

/-- A snapshot of hops that are numbered from one, with none that was probed behind
one that was not. -/
structure Contiguous (s : Snapshot) : Prop where
  numbered : s.hops.map (·.number) = List.range' 1 s.hops.length
  probed : s.hops.Pairwise fun h later => later.sent ≠ 0 → h.sent ≠ 0

/-- A snapshot whose tables both list these hops, and no others. -/
structure Lists (s : Snapshot) (rows : List HopView) : Prop where
  csv : Export.Csv.records s =
    Export.Csv.columns.map String.toList :: rows.map Export.Csv.row
  report : Export.Report.pieces s =
    Export.Report.heading s ++ Export.Report.columns ++ rows.flatMap Export.Report.row

/-- A snapshot whose tables list its first hops, of which there are as many as
`maxHops`, and no other rows. -/
structure Gapless (maxHops : Nat) (s : Snapshot) : Prop where
  length_hops : s.hops.length = maxHops
  /-- The rows are numbered from one without gaps. -/
  numbers : (s.hops.take (min s.firstReached s.lastProbed)).map (·.number) =
    List.range' 1 (min s.firstReached s.lastProbed)
  lists : s.Lists (s.hops.take (min s.firstReached s.lastProbed))

/-- What can be said of a copy even if hops are sent to while it is made. -/
structure Orderly (maxHops : Nat) (s : Snapshot) : Prop where
  numbered : s.hops.map (·.number) = List.range' 1 maxHops
  cycles_le : ∀ h ∈ s.hops, s.cycles ≤ h.sent
  /-- The tables list the same hops, in order. -/
  lists : ∃ rows, rows.Sublist s.hops ∧ s.Lists rows

section Rows

variable {s : Snapshot}

/-- The path is as long as the position of the first hop that an address
answered from. -/
theorem pathTo_eq_take (destination : IPv4) (hops : List HopView) :
    pathTo destination hops =
      hops.take (hops.findIdx (fun h => h.address = some destination) + 1) := by
  induction hops with
  | nil => rfl
  | cons h rest ih =>
      rw [pathTo, List.findIdx_cons]
      by_cases hreached : h.address = some destination
      · simp [hreached]
      · simp [hreached, ih]

/-- What holds of a list's elements up to some one and of none after it, picks
out the first elements of every part of the list. -/
theorem filter_take_of_pairwise {α : Type} {p : α → Bool} {l : List α}
    (h : l.Pairwise fun x y => p y = true → p x = true) (n : Nat) :
    (l.take n).filter p = l.take (min n (l.countP p)) := by
  induction l generalizing n with
  | nil => simp
  | cons x rest ih =>
      obtain ⟨hx, hrest⟩ := List.pairwise_cons.1 h
      cases n with
      | zero => simp
      | succ n =>
          rw [List.take_succ_cons, List.filter_cons, List.countP_cons]
          by_cases hp : p x = true
          · rw [if_pos hp, if_pos hp, ih hrest, Nat.succ_min_succ, List.take_succ_cons]
          · have hnone : rest.countP p = 0 :=
              List.countP_eq_zero.2 fun y hy hpy => hp (hx y hy hpy)
            rw [if_neg hp, if_neg hp, ih hrest, hnone]
            simp

/-- A hop at a place of the list has the number after it. -/
theorem Contiguous.number_eq (h : s.Contiguous) {i : Nat} {v : HopView}
    (hi : s.hops[i]? = some v) : v.number = i + 1 := by
  have hnumber : (s.hops.map (·.number))[i]? = some v.number := by
    rw [List.getElem?_map, hi]
    rfl
  rw [h.numbered, List.getElem?_eq_some_iff] at hnumber
  obtain ⟨hlt, hnumber⟩ := hnumber
  rw [List.getElem_range'] at hnumber
  omega

/-- The path ends at the first hop reached. -/
theorem Contiguous.path_eq (h : s.Contiguous) : s.path = s.hops.take s.firstReached := by
  rw [path, pathTo_eq_take, firstReached]
  cases hfound : s.hops.find? fun h => h.address = some s.destination with
  | none =>
      have hend : s.hops.findIdx (fun h => h.address = some s.destination) = s.hops.length :=
        List.findIdx_eq_length.2 fun v hv =>
          Bool.eq_false_iff.2 (List.find?_eq_none.1 hfound v hv)
      rw [hend, Option.map_none, Option.getD_none, List.take_length]
      exact List.take_of_length_le (Nat.le_succ _)
  | some v =>
      have hplace : s.hops[s.hops.findIdx fun h => h.address = some s.destination]? = some v := by
        rw [← hfound, List.find?_eq_getElem?_findIdx]
      rw [Option.map_some, Option.getD_some, h.number_eq hplace]

/-- The first hops that were probed are the first hops. -/
theorem Contiguous.filter_take (h : s.Contiguous) (n : Nat) :
    (s.hops.take n).filter (fun h => h.sent ≠ 0) =
      s.hops.take (min n (s.hops.countP fun h => h.sent ≠ 0)) := by
  refine filter_take_of_pairwise (h.probed.imp fun {v later} himp hlater => ?_) n
  rw [decide_eq_true_eq] at hlater ⊢
  exact himp hlater

/-- The hops that were probed are as many as the number of the last one says. -/
theorem Contiguous.lastProbed_eq (h : s.Contiguous) :
    s.lastProbed = s.hops.countP fun h => h.sent ≠ 0 := by
  have hprobed := h.filter_take s.hops.length
  have hle := List.countP_le_length (p := fun h : HopView => h.sent ≠ 0) (l := s.hops)
  rw [List.take_length, Nat.min_eq_right hle] at hprobed
  rw [lastProbed, hprobed, List.getLast?_eq_getElem?, List.length_take, Nat.min_eq_left hle]
  generalize hcount : (s.hops.countP fun h => h.sent ≠ 0) = count at hle ⊢
  cases count with
  | zero => simp
  | succ count =>
      have hlast : (s.hops.take (count + 1))[count]? = some s.hops[count] := by
        simp
      rw [Nat.succ_sub_one, hlast]
      exact h.number_eq (List.getElem?_eq_getElem hle)

theorem Contiguous.rows_eq (h : s.Contiguous) :
    s.rows = s.hops.take (min s.firstReached s.lastProbed) := by
  rw [rows, h.path_eq, h.lastProbed_eq]
  exact h.filter_take _

theorem lists_rows (s : Snapshot) : s.Lists s.rows :=
  ⟨rfl, rfl⟩

theorem rows_sublist (s : Snapshot) : s.rows.Sublist s.hops := by
  rw [rows, path, pathTo_eq_take]
  exact List.filter_sublist.trans (List.take_sublist ..)

theorem Contiguous.gapless (h : s.Contiguous) : s.Gapless s.hops.length := by
  constructor
  case length_hops => rfl
  case numbers =>
    have hle : min s.firstReached s.lastProbed ≤ s.hops.length := by
      rw [h.lastProbed_eq]
      exact Nat.le_trans (Nat.min_le_right _ _) List.countP_le_length
    rw [List.map_take, h.numbered, List.take_range'_of_length_ge hle]
  case lists => exact h.rows_eq ▸ s.lists_rows

end Rows

end Snapshot

/-- In a staircase no hop has more sends than any hop before it. -/
theorem Ledger.Staircase.sent_le {spare : Nat} {l : Ledger} (h : l.Staircase spare) {i k : Nat}
    (hk : i + k < l.hops.length) : l.hops[i + k].sent ≤ l.hops[i].sent := by
  induction k with
  | zero => exact Nat.le_refl _
  | succ k ih =>
      have hstep := h.descends (i + k + 1) l.hops[i + k] l.hops[i + k + 1]
        (List.getElem?_eq_getElem _) (List.getElem?_eq_getElem hk)
      exact Nat.le_trans hstep (ih (Nat.lt_of_succ_lt hk))

namespace Engine

/-- While the hops are copied, none of them is sent to for the first time. -/
def State.NoFirstProbe (s : State) (entries : Nat → Nat) (maxHops : Nat) : Prop :=
  ∀ n g g', (s.ledgerAt (entries 1)).hop? n = some g →
    (s.ledgerAt (entries maxHops)).hop? n = some g' → g.sent = 0 → g'.sent = 0

variable {e : Engine} {waiting : List Arrival} {asked : List String} {s : State}
  {entries : Nat → Nat} {v : Snapshot}

/-! ### Copies made beside the engine -/

theorem Reachable.ledgerAt_staircase (h : Reachable e waiting asked s) (n : Nat) :
    ∃ spare, (s.ledgerAt n).Staircase spare := by
  obtain ⟨m, hm, hledger⟩ := h.exists_moment n
  rw [← hledger]
  exact h.exists_staircase m hm

/-- The hop behind is not ahead, at any moment. -/
theorem Reachable.sent_le_of_lt (h : Reachable e waiting asked s) {n i j : Nat} (hij : i < j)
    {g g' : Hop} (hg : (s.ledgerAt n).hop? (i + 1) = some g)
    (hg' : (s.ledgerAt n).hop? (j + 1) = some g') : g'.sent ≤ g.sent := by
  obtain ⟨spare, hstairs⟩ := h.ledgerAt_staircase n
  obtain ⟨k, rfl⟩ := Nat.exists_eq_add_of_lt hij
  have hi : (s.ledgerAt n).hops[i]? = some g := hg
  have hj : (s.ledgerAt n).hops[i + k + 1]? = some g' := hg'
  obtain ⟨-, rfl⟩ := List.getElem?_eq_some_iff.1 hi
  obtain ⟨hlt, rfl⟩ := List.getElem?_eq_some_iff.1 hj
  exact hstairs.sent_le (k := k + 1) hlt

theorem State.Copied.numbered (h : s.Copied entries v) (hs : Reachable e waiting asked s) :
    v.hops.map (·.number) = List.range' 1 e.config.maxHops.toNat := by
  apply List.ext_getElem
  · rw [List.length_map, h.length_hops hs, List.length_range']
  · intro i hi hi'
    rw [List.length_map] at hi
    obtain ⟨-, -, hnumber, -⟩ := h.exists_hop hs (List.getElem?_eq_getElem hi)
    rw [List.getElem_map, List.getElem_range', hnumber]
    omega

theorem State.Copied.cycles_eq (h : s.Copied entries v) :
    v.cycles = (s.ledgerAt (entries 0)).cycles := by
  obtain ⟨turn, -, rfl⟩ := h.copied
  rfl

/-- The cycles are copied first, and no hop falls short of them later. -/
theorem State.Copied.cycles_le (h : s.Copied entries v) (hs : Reachable e waiting asked s) :
    ∀ w ∈ v.hops, v.cycles ≤ w.sent := by
  intro w hw
  obtain ⟨i, hi⟩ := List.getElem?_of_mem hw
  obtain ⟨b, hb, hle⟩ := h.sent_ge hs hi (h.mono (Nat.zero_le (i + 1)))
  obtain ⟨spare, hstairs⟩ := hs.ledgerAt_staircase (entries 0)
  rw [h.cycles_eq]
  exact Nat.le_trans (hstairs.cycles_le b (Ledger.mem_of_hop? hb)) hle

/-- Where a cycle is completed, every hop has been sent to. -/
theorem State.Copied.noFirstProbe (h : s.Copied entries v) (hs : Reachable e waiting asked s)
    (hpos : 0 < v.cycles) (maxHops : Nat) : s.NoFirstProbe entries maxHops := by
  intro n g g' hg _ hzero
  obtain ⟨spare, hstairs⟩ := hs.ledgerAt_staircase (entries 1)
  have hsent : v.cycles ≤ g.sent := by
    calc v.cycles
      _ = (s.ledgerAt (entries 0)).cycles := h.cycles_eq
      _ ≤ (s.ledgerAt (entries 1)).cycles := (hs.ledgerAt_grows (h.inOrder 0)).cycles
      _ ≤ g.sent := hstairs.cycles_le g (Ledger.mem_of_hop? hg)
  omega

/-- **A copy has no gap** if no hop is sent to for the first time meanwhile. -/
theorem State.Copied.gapless (h : s.Copied entries v) (hs : Reachable e waiting asked s)
    (hnone : s.NoFirstProbe entries e.config.maxHops.toNat) :
    v.Gapless e.config.maxHops.toNat := by
  have hlength := h.length_hops hs
  have hcontiguous : v.Contiguous := by
    refine ⟨hlength ▸ h.numbered hs, List.pairwise_iff_getElem.2 fun i j hi hj hij hlater => ?_⟩
    have hlast : j + 1 ≤ e.config.maxHops.toNat := hlength ▸ hj
    -- the later hop was sent to before the last hop was taken, so before the first one was
    obtain ⟨g', hg', hle'⟩ := h.sent_le hs (List.getElem?_eq_getElem hj) (h.mono hlast)
    obtain ⟨b', hb', -⟩ := h.sent_ge hs (List.getElem?_eq_getElem hj)
      (h.mono (Nat.le_add_left 1 j))
    obtain ⟨b, hb, hle⟩ := h.sent_ge hs (List.getElem?_eq_getElem hi)
      (h.mono (Nat.le_add_left 1 i))
    have hbegun : b'.sent ≠ 0 := fun hzero => by
      have hstill := hnone (j + 1) b' g' hb' hg' hzero
      omega
    have hahead := hs.sent_le_of_lt hij hb hb'
    omega
  rw [← hlength]
  exact hcontiguous.gapless

theorem State.Copied.orderly (h : s.Copied entries v) (hs : Reachable e waiting asked s) :
    v.Orderly e.config.maxHops.toNat :=
  ⟨h.numbered hs, h.cycles_le hs, _, v.rows_sublist, v.lists_rows⟩

/-- Nothing happens while one ledger is copied. -/
theorem Reachable.snapshot_gapless (h : Reachable e waiting asked s) :
    ∀ m ∈ s.timeline, m.ledger.snapshot.Gapless e.config.maxHops.toNat := by
  intro m hm
  obtain ⟨n, hn⟩ := List.getElem?_of_mem (List.mem_reverse.2 hm)
  have hledger : s.ledgerAt n = m.ledger := by
    rw [State.ledgerAt, hn]
    rfl
  rw [← hledger]
  refine (s.copied_snapshot n).gapless h fun _ g g' hg hg' hzero => ?_
  rw [Option.some.inj (hg'.symm.trans hg)]
  exact hzero

/-- **Sends go down in steps, and tables have no gaps.**  In every history, at
its end and at every moment of the next run, no hop has more sends than the one
before it, none has fewer than there are completed cycles, and the first has
more by no more than the passes cut short so far and the one in progress; of
the passes of a run only the last one is ever cut short.  So the tables of a
ledger list the hops from the first one on, as far as the target answered or
anything was sent.  The snapshots that the run shows and returns are such
tables.  A copy that is made beside the engine, hop by hop, lists the same hops
in both tables, none with fewer sends than cycles; and it has no gaps either if
it shows a completed cycle, or else if no hop is sent to for the first time
while it is made. -/
theorem tables_without_gaps (e : Engine) (waiting : List Arrival) (asked : List String)
    (visits : List Visit) (rest : Duration) (stop : Stop) (patience : Nat) :
    let s := (e.history waiting asked visits).wait rest
    let run := e.runCollecting stop patience s
    s.ledger.Staircase s.cutShort ∧
      (∃ done cut, run.state.passes = s.passes ++ done ++ cut ∧
        (∀ r ∈ done, r.isComplete = true) ∧
        cut.length ≤ 1 ∧ ∀ r ∈ cut, r.isComplete = false) ∧
      run.state.timeline = run.state.momentsSince s ++ s.timeline ∧
      (∀ m ∈ run.state.momentsSince s, m.ledger.Staircase (s.cutShort + 1)) ∧
      (∀ m ∈ run.state.timeline, m.ledger.snapshot.Gapless e.config.maxHops.toNat) ∧
      (∀ v, v ∈ run.seen ∨ v = run.state.snapshot →
        ∃ m ∈ run.state.timeline, m.ledger.snapshot = v) ∧
      ∀ entries v, run.state.Copied entries v → v.Orderly e.config.maxHops.toNat ∧
        (0 < v.cycles ∨ run.state.NoFirstProbe entries e.config.maxHops.toNat →
          v.Gapless e.config.maxHops.toNat) := by
  intro s run
  have hs : Reachable e waiting asked s := (history_reachable e waiting asked visits).wait rest
  obtain ⟨known, done, cut, hrun⟩ := hs.retold stop patience
  obtain ⟨new, htimeline, hnew⟩ := hs.staircase_run stop patience
  have hsince : run.state.momentsSince s = new := momentsSince_of_append htimeline
  refine ⟨hs.staircase, ⟨done, cut, hrun.passes, hrun.isComplete, hrun.closing.isCut⟩, ?_, ?_,
    hrun.reachable.snapshot_gapless, ?_, fun entries v hv => ⟨hv.orderly hrun.reachable, ?_⟩⟩
  · rw [hsince]
    exact htimeline
  · rw [hsince]
    exact hnew
  · rintro v (hv | rfl)
    · obtain ⟨i, hi⟩ := List.getElem?_of_mem hv
      obtain ⟨c, hc, rfl, -, -⟩ := hrun.known_spec hs hi
      exact ⟨_, hrun.turns.mem_timeline hc, rfl⟩
    · have hlast := hrun.reachable.ascending.last
      obtain ⟨m, hm, hledger⟩ := Option.map_eq_some_iff.1 hlast
      exact ⟨m, List.mem_of_head? hm, congrArg Ledger.snapshot hledger⟩
  · rintro (hpos | hnone)
    · exact hv.gapless hrun.reachable (hv.noFirstProbe hrun.reachable hpos _)
    · exact hv.gapless hrun.reachable hnone

/-- A reader is held up between the first hop and the second: after so many entries
it goes on where more have been made. -/
def heldUp (before after n : Nat) : Nat :=
  if n < 2 then before else after

theorem State.copied_heldUp (s : State) {before after : Nat} (hle : before ≤ after) :
    s.Copied (heldUp before after)
      ((s.ledgerAt before).copy fun n => s.ledgerAt (heldUp before after n)) := by
  refine ⟨fun n => ?_, _, fun _ => .entered, rfl⟩
  unfold heldUp
  split <;> split <;> omega

/-- Two hops are probed one after the other, for the second time.  The first is
copied before its probe goes out, the second after its own.  It is ahead of the
first by one probe, and no row is missing. -/
theorem no_hop_missing_in_second_pass :
    let s := ((trial 2 0 []).history [] [] [⟨0, .never, 0⟩]).wait 0
    let run := (trial 2 0 []).runCollecting .never 0 s
    let v := (run.state.ledgerAt 5).copy fun n => run.state.ledgerAt (heldUp 5 7 n)
    run.state.Copied (heldUp 5 7) v ∧ 0 < v.cycles ∧
      v.hops.map (fun h => (h.number, h.sent)) = [(1, 1), (2, 2)] ∧
      v.Gapless (trial 2 0 []).config.maxHops.toNat := by
  intro s run v
  have hcopied : run.state.Copied (heldUp 5 7) v := run.state.copied_heldUp (by decide)
  have hcycles : 0 < v.cycles := by decide +kernel
  obtain ⟨-, -, -, -, -, -, hcopies⟩ :=
    tables_without_gaps (trial 2 0 []) [] [] [⟨0, .never, 0⟩] 0 .never 0
  exact ⟨hcopied, hcycles, by decide +kernel, (hcopies _ _ hcopied).2 (.inl hcycles)⟩

/-- **A copy of the very first pass may have a gap.**  Again the first hop is copied
before its probe goes out and the second after its own.  The first has never been
sent to, so the tables list the second alone. -/
theorem hop_missing_in_copy :
    let s := ((trial 2 0 []).history [] [] []).wait 0
    let run := (trial 2 0 []).runCollecting .never 0 s
    let v := (run.state.ledgerAt 1).copy fun n => run.state.ledgerAt (heldUp 1 3 n)
    run.state.Copied (heldUp 1 3) v ∧
      v.hops.map (fun h => (h.number, h.sent)) = [(1, 0), (2, 1)] ∧
      v.firstReached = 2 ∧ v.lastProbed = 2 ∧ v.rows.map (·.number) = [2] ∧
      ¬ v.Gapless (trial 2 0 []).config.maxHops.toNat := by
  intro s run v
  have hrows : v.rows.length = 1 := by decide +kernel
  have hfirst : (v.hops.take (min v.firstReached v.lastProbed)).length = 2 := by decide +kernel
  refine ⟨run.state.copied_heldUp (by decide), by decide +kernel, by decide +kernel,
    by decide +kernel, by decide +kernel, fun hgapless => ?_⟩
  have hlength := congrArg List.length (hgapless.lists.csv.symm.trans v.lists_rows.csv)
  rw [List.length_cons, List.length_cons, List.length_map, List.length_map, hfirst, hrows]
    at hlength
  exact absurd hlength (by decide)

end Engine

end PathMeter
