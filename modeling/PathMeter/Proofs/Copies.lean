import Mathlib.Order.Monotone.Basic
import PathMeter.Engine.Reading
import PathMeter.Proofs.Counters

/-!
# What a reader beside the engine finds

Every part of a copy is of some moment, and the parts are of moments in order
(`Copied.mono`).  As counters only grow from one moment to the next
(`Reachable.ledgerAt_grows`), what is known of a hop at one moment bounds what
is copied of it at a later one.  The number of a hop and its sends are those of
the moment at which it was taken, whether or not it was just being brought up
to date (`Copied.exists_hop`).
-/

namespace PathMeter.Engine

variable {e : Engine} {waiting : List Arrival} {asked : List String} {s : State}
  {entries : Nat → Nat} {v : Snapshot}

theorem Reachable.exists_moment (h : Reachable e waiting asked s) (n : Nat) :
    ∃ m ∈ s.timeline, m.ledger = s.ledgerAt n := by
  unfold State.ledgerAt
  cases hn : s.timeline.reverse[n]? with
  | none =>
      obtain ⟨m, hm, hledger⟩ := Option.map_eq_some_iff.1 h.ascending.last
      exact ⟨m, List.mem_of_head? hm, hledger⟩
  | some m => exact ⟨m, List.mem_reverse.1 (List.mem_of_getElem? hn), rfl⟩

/-- A later ledger counts no less. -/
theorem Reachable.ledgerAt_grows (h : Reachable e waiting asked s) {i j : Nat} (hij : i ≤ j) :
    (s.ledgerAt i).Grows (s.ledgerAt j) := by
  rcases Nat.eq_or_lt_of_le hij with rfl | hlt
  · exact .refl _
  rcases Nat.lt_or_ge j s.timeline.reverse.length with hj | hj
  · have hi : i < s.timeline.reverse.length := Nat.lt_trans hlt hj
    have hpairwise := List.pairwise_reverse.2 h.ascending.pairwise
    have hgrow := List.pairwise_iff_getElem.1 hpairwise i j hi hj hlt
    rw [State.ledgerAt, State.ledgerAt, List.getElem?_eq_getElem hi, List.getElem?_eq_getElem hj]
    exact hgrow.2
  · -- past the last entry it is the ledger in force
    obtain ⟨m, hm, hledger⟩ := h.exists_moment i
    rw [← hledger, State.ledgerAt, List.getElem?_eq_none hj]
    exact (h.ascending.now m hm).2

theorem Reachable.ledgerAt_sound (h : Reachable e waiting asked s) (n : Nat) :
    (s.ledgerAt n).Sound e.config.maxHops.toNat := by
  obtain ⟨m, hm, hledger⟩ := h.exists_moment n
  rw [← hledger]
  exact (h.reliable m hm).sound

/-- A hop keeps its place and its sends while it is brought up to date. -/
theorem State.Found.hop? {n : Nat} {l : Ledger} (h : s.Found n l) (position : Nat) :
    (l.hop? position).map (fun g => (g.number, g.sent)) =
      ((s.ledgerAt n).hop? position).map fun g => (g.number, g.sent) := by
  cases h with
  | entered => rfl
  | updated hnext =>
      rw [hnext]
      exact Ledger.map_hop?_finalize (fun _ => rfl) ..

theorem State.Copied.mono (h : s.Copied entries v) : Monotone entries :=
  monotone_nat_of_le_succ h.inOrder

theorem State.Copied.length_hops (h : s.Copied entries v) (hs : Reachable e waiting asked s) :
    v.hops.length = e.config.maxHops.toNat := by
  obtain ⟨turn, -, rfl⟩ := h.copied
  rw [← (hs.ledgerAt_sound (entries 0)).length_hops]
  exact List.length_mapIdx

/-- **The hops of a copy** are those at the moments at which they were taken. -/
theorem State.Copied.exists_hop (h : s.Copied entries v) (hs : Reachable e waiting asked s)
    {i : Nat} {w : HopView} (hw : v.hops[i]? = some w) :
    ∃ g, (s.ledgerAt (entries (i + 1))).hop? (i + 1) = some g ∧
      w.number = i + 1 ∧ w.sent = g.sent := by
  have hlt : i < e.config.maxHops.toNat := by
    rw [← h.length_hops hs]
    exact (List.getElem?_eq_some_iff.1 hw).1
  obtain ⟨turn, hturn, rfl⟩ := h.copied
  have hsound := hs.ledgerAt_sound (entries (i + 1))
  obtain ⟨g, hg⟩ := hsound.exists_hop (n := i + 1) (Nat.le_add_left ..) hlt
  have hfound := (hturn (i + 1)).hop? (i + 1)
  rw [hg] at hfound
  obtain ⟨g', hg', hsame⟩ := Option.map_eq_some_iff.1 hfound
  obtain ⟨hnumber, hsent⟩ := Prod.mk.inj hsame
  obtain ⟨b, -, hview⟩ := Option.map_eq_some_iff.1 ((List.getElem?_mapIdx ..).symm.trans hw)
  rw [hg', Option.getD_some] at hview
  refine ⟨g, hg, ?_, ?_⟩
  · rw [← hview]
    exact hnumber.trans (hsound.number_eq hg)
  · rw [← hview]
    exact hsent

/-- What is known of every hop at a moment before it was taken bounds its sends
in the copy. -/
theorem State.Copied.sent_ge (h : s.Copied entries v) (hs : Reachable e waiting asked s)
    {i n : Nat} {w : HopView} (hw : v.hops[i]? = some w) (hn : n ≤ entries (i + 1)) :
    ∃ b, (s.ledgerAt n).hop? (i + 1) = some b ∧ b.sent ≤ w.sent := by
  obtain ⟨g, hg, -, hsent⟩ := h.exists_hop hs hw
  obtain ⟨b, hb, hgrow⟩ := (hs.ledgerAt_grows hn).hops.exists_left hg
  exact ⟨b, hb, hsent ▸ hgrow.sent⟩

/-- What is known of it at a moment after it was taken does so, too. -/
theorem State.Copied.sent_le (h : s.Copied entries v) (hs : Reachable e waiting asked s)
    {i n : Nat} {w : HopView} (hw : v.hops[i]? = some w) (hn : entries (i + 1) ≤ n) :
    ∃ g, (s.ledgerAt n).hop? (i + 1) = some g ∧ w.sent ≤ g.sent := by
  obtain ⟨b, hb, -, hsent⟩ := h.exists_hop hs hw
  obtain ⟨g, hg, hgrow⟩ := (hs.ledgerAt_grows hn).hops.exists_right hb
  exact ⟨g, hg, hsent ▸ hgrow.sent⟩

end PathMeter.Engine
