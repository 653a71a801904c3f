import PathMeter.Hop

/-!
# How a hop stands

Sends and replies of a hop are counted as they happen, its losses and figures
once a cycle.  So between two cycles the figures are those of all its round
trips (`Hop.UpToDate`), and within a cycle a hop is up to date but for one
probe and the reply to it (`Hop.Stage`).

Whatever the stage, the counters agree with each other (`Stage.coherent`),
the figures are still those of the cycle's beginning (`Stage.figures_eq`), and
`finalize` brings the hop up to date again (`Coherent.finalize`).  No entry
takes anything back (`Hop.Grows`); for the losses this rests on the counters
being in agreement when `finalize` counts them anew.
-/

namespace PathMeter

namespace Sample

/-- The shortest of some round trips is one of them, and none is shorter. -/
theorem shortest_spec {xs : List Duration} (h : xs ≠ []) :
    (Sample.of xs).shortest ∈ xs ∧ ∀ d ∈ xs, (Sample.of xs).shortest ≤ d := by
  cases xs with
  | nil => exact absurd rfl h
  | cons d rest => exact List.min?_eq_some_iff.1 List.min?_cons'

/-- The longest of some round trips is one of them, and none is longer. -/
theorem longest_spec {xs : List Duration} (h : xs ≠ []) :
    (Sample.of xs).longest ∈ xs ∧ ∀ d ∈ xs, d ≤ (Sample.of xs).longest := by
  cases xs with
  | nil => exact absurd rfl h
  | cons d rest => exact List.max?_eq_some_iff.1 List.max?_cons'

end Sample

/-- The figures of a hop as they are shown. -/
def HopView.figures (h : HopView) : Sample :=
  ⟨h.shortest, h.longest, h.mean, h.spread⟩

namespace Hop

/-- A reply that is owed is entered, with nothing held back. -/
theorem recordReply_of_lt {h : Hop} (hlt : h.received < h.sent) (ip : IPv4) (d : Duration) :
    h.recordReply ip d =
      { h with
        received := h.received + 1
        last := d
        samples := h.samples ++ [d]
        address := some ip
        hostname := if h.address = some ip then h.hostname else none } :=
  if_pos (decide_eq_true hlt)

/-- The counters of a hop agree with each other and with its round trips; at
most one probe is neither answered nor counted as lost. -/
structure Coherent (h : Hop) : Prop where
  length_samples : h.samples.length = h.received
  last_eq : h.last = h.samples.getLastD 0
  address_iff : h.address.isSome = true ↔ 0 < h.received
  lost_le : h.received + h.lost ≤ h.sent
  sent_le : h.sent ≤ h.received + h.lost + 1

/-- A coherent hop whose losses and figures need no update. -/
structure UpToDate (h : Hop) : Prop extends Coherent h where
  finalize_eq : h.finalize = h

theorem upToDate_new (n : Nat) : (Hop.new n).UpToDate where
  length_samples := rfl
  last_eq := rfl
  address_iff := by simp [Hop.new, HopView.new]
  lost_le := Nat.le_refl 0
  sent_le := Nat.zero_le 1
  finalize_eq := rfl

section UpToDate

variable {h : Hop}

theorem UpToDate.lost_eq (hh : h.UpToDate) : h.lost = h.sent - h.received :=
  congrArg (·.lost) hh.finalize_eq.symm

theorem UpToDate.sent_eq (hh : h.UpToDate) : h.sent = h.received + h.lost := by
  have hle := hh.lost_le
  have hlost := hh.lost_eq
  omega

theorem UpToDate.figures_eq (hh : h.UpToDate) : h.figures = Sample.of h.samples :=
  congrArg (fun h : Hop => h.figures) hh.finalize_eq.symm

theorem Coherent.finalize (hh : h.Coherent) : h.finalize.UpToDate where
  length_samples := hh.length_samples
  last_eq := hh.last_eq
  address_iff := hh.address_iff
  lost_le := by
    have hle := hh.lost_le
    show h.received + (h.sent - h.received) ≤ h.sent
    omega
  sent_le := by
    show h.sent ≤ h.received + (h.sent - h.received) + 1
    omega
  finalize_eq := rfl

end UpToDate

/-- How a hop may stand at an instant within a cycle: as it was at the
beginning, or with a probe sent, or with the reply to it entered; and perhaps
with a new name. -/
inductive Stage (g : Hop) (now : Duration) : Hop → Prop where
  | quiet : Stage g now g
  | probed : Stage g now g.recordSent
  | answered (ip : IPv4) (d : Duration) (hd : d ≤ now) :
      Stage g now (g.recordSent.recordReply ip d)
  | renamed {h : Hop} (name : Option String) (hh : Stage g now h) : Stage g now (h.rename name)

section Stage

variable {g h : Hop} {now : Duration}

/-- What stands at an instant stands later on. -/
theorem Stage.mono (hh : Stage g now h) {later : Duration} (hle : now ≤ later) :
    Stage g later h := by
  induction hh with
  | quiet => exact .quiet
  | probed => exact .probed
  | answered ip d hd => exact .answered ip d (Nat.le_trans hd hle)
  | renamed name _ ih => exact .renamed name ih

/-- The one probe of a cycle may be answered. -/
theorem UpToDate.recordReply (hg : g.UpToDate) (ip : IPv4) (d : Duration) :
    g.recordSent.recordReply ip d =
      { g.recordSent with
        received := g.received + 1
        last := d
        samples := g.samples ++ [d]
        address := some ip
        hostname := if g.address = some ip then g.hostname else none } := by
  have hle := hg.lost_le
  have hlt : g.received < g.sent + 1 := by omega
  exact if_pos (decide_eq_true hlt)

theorem Stage.coherent (hg : g.UpToDate) (hh : Stage g now h) : h.Coherent := by
  have hsent := hg.sent_eq
  induction hh with
  | quiet => exact hg.toCoherent
  | probed =>
      refine ⟨hg.length_samples, hg.last_eq, hg.address_iff, ?_, ?_⟩
      · show g.received + g.lost ≤ g.sent + 1
        omega
      · show g.sent + 1 ≤ g.received + g.lost + 1
        omega
  | answered ip d hd =>
      rw [hg.recordReply]
      refine ⟨?_, ?_, ?_, ?_, ?_⟩
      · show (g.samples ++ [d]).length = g.received + 1
        rw [List.length_append, hg.length_samples, List.length_singleton]
      · exact List.getLastD_concat.symm
      · simp
      · show g.received + 1 + g.lost ≤ g.sent + 1
        omega
      · show g.sent + 1 ≤ g.received + 1 + g.lost + 1
        omega
  | renamed name _ ih =>
      exact ⟨ih.length_samples, ih.last_eq, ih.address_iff, ih.lost_le, ih.sent_le⟩

theorem Stage.number_eq (hh : Stage g now h) : h.number = g.number := by
  induction hh with
  | quiet | probed => rfl
  | answered ip d hd => exact number_recordReply ..
  | renamed name _ ih => exact ih

/-- Within a cycle the figures stay what they were at its beginning. -/
theorem Stage.figures_eq (hg : g.UpToDate) (hh : Stage g now h) :
    h.figures = Sample.of g.samples := by
  induction hh with
  | quiet | probed => exact hg.figures_eq
  | answered ip d hd =>
      rw [hg.recordReply]
      exact hg.figures_eq
  | renamed name _ ih => exact ih

/-- Within a cycle at most one round trip is added, and none that is longer than
the clock has run. -/
theorem Stage.samples_eq (hg : g.UpToDate) (hh : Stage g now h) :
    h.samples = g.samples ∨ ∃ d, d ≤ now ∧ h.samples = g.samples ++ [d] := by
  induction hh with
  | quiet | probed => exact Or.inl rfl
  | answered ip d hd =>
      right
      rw [hg.recordReply]
      exact ⟨d, hd, rfl⟩
  | renamed name _ ih => exact ih

end Stage

/-- A hop later on: nothing that was counted is taken back, and a hop that had
an address still has one. -/
structure Grows (h h' : Hop) : Prop where
  sent : h.sent ≤ h'.sent
  received : h.received ≤ h'.received
  lost : h.lost ≤ h'.lost
  address : h.address.isSome = true → h'.address.isSome = true

namespace Grows

theorem refl (h : Hop) : h.Grows h :=
  ⟨Nat.le_refl _, Nat.le_refl _, Nat.le_refl _, id⟩

theorem trans {h h' h'' : Hop} (h₁ : h.Grows h') (h₂ : h'.Grows h'') : h.Grows h'' :=
  ⟨Nat.le_trans h₁.sent h₂.sent, Nat.le_trans h₁.received h₂.received,
    Nat.le_trans h₁.lost h₂.lost, fun hsome => h₂.address (h₁.address hsome)⟩

theorem recordSent (h : Hop) : h.Grows h.recordSent :=
  ⟨Nat.le_succ _, Nat.le_refl _, Nat.le_refl _, id⟩

theorem recordReply (h : Hop) (ip : IPv4) (d : Duration) : h.Grows (h.recordReply ip d) := by
  unfold Hop.recordReply
  split
  · exact ⟨Nat.le_refl _, Nat.le_succ _, Nat.le_refl _, fun _ => rfl⟩
  · exact refl h

theorem rename (h : Hop) (name : Option String) : h.Grows (h.rename name) :=
  ⟨Nat.le_refl _, Nat.le_refl _, Nat.le_refl _, id⟩

/-- Losses counted anew are not fewer than before. -/
theorem finalize {h : Hop} (hh : h.Coherent) : h.Grows h.finalize := by
  refine ⟨Nat.le_refl _, Nat.le_refl _, ?_, id⟩
  have hle := hh.lost_le
  show h.lost ≤ h.sent - h.received
  omega

end Grows

end Hop

end PathMeter
