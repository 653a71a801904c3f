import PathMeter.Export
import PathMeter.Proofs.RecordReading
import PathMeter.Proofs.TimestampReading

/-!
# Exported snapshots are read back

A snapshot that was exported is read back as it was, but for its durations:
the text knows them in whole microseconds, and one number stands for all that
are too long to be counted so (`Duration.onGrid`).  Everything else survives,
whatever characters the names are made of.

A snapshot whose durations lie on that grid already comes back as it was, and
after the first time through the text nothing changes any more
(`snapshot_read_back`).
-/

namespace PathMeter

open Json (Document Value)

namespace Duration

/-- What a count of microseconds keeps of a duration. -/
def onGrid (d : Duration) : Duration :=
  if microLimit * microsecond ≤ d then limit else d / microsecond * microsecond

theorem wholeMicros_lt (d : Duration) : d.wholeMicros < wordBound :=
  Nat.lt_of_le_of_lt (Nat.min_le_right _ _) (by decide)

/-- The durations that a count of microseconds keeps. -/
theorem onGrid_eq_self_iff (d : Duration) :
    d.onGrid = d ↔ d = limit ∨ d < microLimit * microsecond ∧ microsecond ∣ d := by
  have hlimit : microLimit * microsecond ≤ limit := by decide
  unfold onGrid
  split
  · next hlong =>
    constructor
    · intro h
      exact Or.inl h.symm
    · rintro (h | ⟨hlt, -⟩)
      · exact h.symm
      · exact absurd hlong (Nat.not_le.2 hlt)
  · next hshort =>
    constructor
    · intro h
      exact Or.inr ⟨Nat.not_le.1 hshort, Dvd.intro_left _ h⟩
    · rintro (h | ⟨-, hdvd⟩)
      · exact absurd (h ▸ hlimit) hshort
      · exact Nat.div_mul_cancel hdvd

/-- On the grid there are no further losses. -/
theorem wholeMicros_onGrid (d : Duration) : d.onGrid.wholeMicros = d.wholeMicros := by
  unfold onGrid
  split
  · next hlong =>
    have hdiv : microLimit ≤ d / microsecond := (Nat.le_div_iff_mul_le (by decide)).2 hlong
    rw [wholeMicros, wholeMicros, Nat.min_eq_right hdiv]
    decide
  · rw [wholeMicros, wholeMicros, Nat.mul_div_cancel _ (by decide)]

end Duration

namespace HopView

/-- The durations of a hop. -/
def durations (h : HopView) : List Duration :=
  [h.last, h.mean, h.shortest, h.longest, h.spread]

/-- A hop with its durations in whole microseconds. -/
def onGrid (h : HopView) : HopView :=
  { h with
    last := h.last.onGrid
    mean := h.mean.onGrid
    shortest := h.shortest.onGrid
    longest := h.longest.onGrid
    spread := h.spread.onGrid }

/-- A hop whose numbers lie in the ranges that their fields have. -/
structure Exportable (h : HopView) : Prop where
  number_lt : h.number < 256
  sent_lt : h.sent < wordBound
  received_lt : h.received < wordBound
  lost_lt : h.lost < wordBound
  loss_finite : h.loss.isFinite = true

theorem onGrid_eq_self_iff (h : HopView) :
    h.onGrid = h ↔ ∀ d ∈ h.durations, d.onGrid = d := by
  cases h
  simp [onGrid, durations]

theorem document_onGrid (h : HopView) : h.onGrid.document = h.document := by
  unfold document onGrid
  simp only [Duration.wholeMicros_onGrid]

theorem micros?_value (d : Duration) :
    micros? (Document.natural d.wholeMicros).value = some d.onGrid := by
  rw [micros?, Json.natural?_value d.wholeMicros_lt, Option.map_some, Duration.ofMicros_wholeMicros]
  rfl

/-- A text that may be missing is read back if it is when it is there. -/
theorem omissible?_optionalText {α : Type} {item? : Value → Option α} {text : α → List Char}
    (hitem : ∀ a, item? (Document.text (text a)).value = some a) (a : Option α) :
    Json.omissible? item? (some (optionalText (a.map text)).value) = some a := by
  cases a with
  | none => rfl
  | some a =>
      show (item? (Document.text (text a)).value).map some = _
      rw [hitem]
      rfl

/-- A hop is read back from its document. -/
theorem ofJson?_document {h : HopView} (hh : h.Exportable) :
    ofJson? h.document.value = some h.onGrid := by
  have hfields : Json.fields? fieldNames h.document.value = _ :=
    Json.fields?_value (show fieldNames.Nodup by decide)
  have haddress := omissible?_optionalText Json.address?_value h.address
  have hhostname := omissible?_optionalText Json.string?_value h.hostname
  unfold ofJson?
  rw [hfields]
  simp only [List.map_cons, List.map_nil, Option.bind_eq_bind, Option.bind_some, Json.required?,
    Json.natural?_value hh.number_lt, Json.natural?_value hh.sent_lt,
    Json.natural?_value hh.received_lt, Json.natural?_value hh.lost_lt,
    Json.float?_value hh.loss_finite, haddress, hhostname, micros?_value]
  rfl

end HopView

namespace Snapshot

/-- The durations of a snapshot: that of the run, and those of its hops. -/
def durations (s : Snapshot) : List Duration :=
  s.duration :: s.hops.flatMap HopView.durations

/-- A snapshot with its durations in whole microseconds. -/
def onGrid (s : Snapshot) : Snapshot :=
  { s with
    hops := s.hops.map HopView.onGrid
    duration := s.duration.onGrid }

/-- A snapshot whose numbers lie in the ranges that their fields have, and that
was started in a year of four digits and in no leap second. -/
structure Exportable (s : Snapshot) : Prop where
  hops : ∀ h ∈ s.hops, h.Exportable
  cycles_lt : s.cycles < wordBound
  year_mem : 0 ≤ s.startedAt.date.year ∧ s.startedAt.date.year ≤ 9999
  nanos_lt : s.startedAt.nanos < Time.secondNanos

theorem onGrid_eq_self_iff (s : Snapshot) :
    s.onGrid = s ↔ ∀ d ∈ s.durations, d.onGrid = d := by
  have hhops : s.hops.map HopView.onGrid = s.hops ↔ ∀ h ∈ s.hops, h.onGrid = h := by
    conv_lhs => rhs; rw [← List.map_id s.hops]
    exact List.map_inj_left
  have hs : s.onGrid = s ↔ s.hops.map HopView.onGrid = s.hops ∧ s.duration.onGrid = s.duration := by
    cases s
    simp [onGrid]
  rw [hs, hhops]
  unfold durations
  simp only [HopView.onGrid_eq_self_iff, List.forall_mem_cons, List.forall_mem_flatMap]
  exact and_comm

theorem document_onGrid (s : Snapshot) : s.onGrid.document = s.document := by
  have hhops : s.onGrid.hops.map HopView.document = s.hops.map HopView.document := by
    show (s.hops.map HopView.onGrid).map HopView.document = _
    rw [List.map_map]
    exact List.map_congr_left fun h _ => h.document_onGrid
  unfold document
  rw [hhops]
  unfold onGrid
  simp only [Duration.wholeMicros_onGrid]

theorem instant?_value {s : Snapshot} (hs : s.Exportable) :
    instant? (Document.text s.startedAt.text).value = some s.startedAt := by
  rw [instant?, Json.text?_value]
  exact Time.Timestamp.ofText?_text hs.year_mem.1 hs.year_mem.2 hs.nanos_lt

/-- A snapshot is read back from its document. -/
theorem ofJson?_document {s : Snapshot} (hs : s.Exportable) :
    ofJson? s.document.value = some s.onGrid := by
  have hfields : Json.fields? fieldNames s.document.value = _ :=
    Json.fields?_value (show fieldNames.Nodup by decide)
  have hhops : Json.list? HopView.ofJson? (Document.array (s.hops.map HopView.document)).value =
      some (s.hops.map HopView.onGrid) :=
    Json.list?_value fun h hmem => HopView.ofJson?_document (hs.hops h hmem)
  unfold ofJson?
  rw [hfields]
  simp only [List.map_cons, List.map_nil, Option.bind_eq_bind, Option.bind_some, Json.required?,
    Json.string?_value, Json.address?_value, hhops, Json.natural?_value hs.cycles_lt,
    instant?_value hs, HopView.micros?_value]
  rfl

theorem ofText?_text {s : Snapshot} (hs : s.Exportable) :
    ofText? (Export.text .json s) = some s.onGrid := by
  unfold ofText? Export.text
  rw [String.toList_ofList]
  show (Value.ofText? (s.document.pretty 0).flatten).bind ofJson? = _
  rw [Document.ofText?_pretty]
  exact ofJson?_document hs

/-- **An exported snapshot is read back**, with each duration in whole
microseconds: all of it comes back if and only if every duration is the longest
one or a number of whole microseconds short of the largest number there is, and
what was read back is exported to the same text. -/
theorem snapshot_read_back (s : Snapshot) (hs : s.Exportable) :
    ofText? (Export.text .json s) = some s.onGrid ∧
      (ofText? (Export.text .json s) = some s ↔
        ∀ d ∈ s.durations, d = Duration.limit ∨
          d < Duration.microLimit * Duration.microsecond ∧ Duration.microsecond ∣ d) ∧
      Export.text .json s.onGrid = Export.text .json s := by
  have hread := ofText?_text hs
  refine ⟨hread, ?_, ?_⟩
  · rw [hread, Option.some_inj, onGrid_eq_self_iff]
    simp only [Duration.onGrid_eq_self_iff]
  · show String.ofList (s.onGrid.document.pretty 0).flatten = _
    rw [document_onGrid]
    rfl

/-- Two hops of a run that began on a leap day: a silent one, and the target
with a name in quotes and a mean off the grid. -/
def leapDayRun : Snapshot where
  target := "\"g\u00E9n\u00E9rique\"\n"
  destination := ⟨192, 0, 2, 1⟩
  hops :=
    [HopView.new 1,
     { HopView.new 2 with
       address := some ⟨192, 0, 2, 1⟩
       hostname := some "\"\\\t"
       sent := 3
       received := 2
       lost := 1
       loss := Hop.lossOf 3 1
       last := 2 * Duration.millisecond
       mean := 1 * Duration.millisecond + 500
       shortest := 1 * Duration.microsecond
       longest := 2 * Duration.millisecond }]
  cycles := 3
  startedAt := ⟨951782400, 500000000⟩
  duration := 3 * Duration.second

/-- All of it comes back but the last 500 nanoseconds of the mean. -/
theorem leapDayRun_read_back :
    leapDayRun.Exportable ∧ ofText? (Export.text .json leapDayRun) = some leapDayRun.onGrid ∧
      leapDayRun.durations =
        [3000000000, 0, 0, Duration.limit, 0, 0, 2000000, 1000500, 1000, 2000000, 0] ∧
      leapDayRun.onGrid.durations =
        [3000000000, 0, 0, Duration.limit, 0, 0, 2000000, 1000000, 1000, 2000000, 0] ∧
      ofText? (Export.text .json leapDayRun) ≠ some leapDayRun := by
  have hexportable : leapDayRun.Exportable := by
    refine ⟨?_, by decide, by decide, by decide⟩
    intro h hmem
    rcases List.mem_cons.1 hmem with rfl | hmem
    · exact ⟨by decide, by decide, by decide, by decide, by decide +kernel⟩
    · obtain rfl := List.mem_singleton.1 hmem
      exact ⟨by decide, by decide, by decide, by decide, by decide +kernel⟩
  obtain ⟨hread, hback, -⟩ := snapshot_read_back leapDayRun hexportable
  refine ⟨hexportable, hread, by decide, by decide, ?_⟩
  rw [Ne, hback]
  intro hgrid
  have hmean := hgrid 1000500 (by decide)
  revert hmean
  decide

end Snapshot

end PathMeter
