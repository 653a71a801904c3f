import PathMeter.Engine.Rehearsal
import PathMeter.Export.Csv
import PathMeter.Export.Report
import PathMeter.Proofs.Timeline

/-!
# What figures are worth within a cycle

The last round trip of a hop is entered with the reply; its shortest and its
longest are brought up to date when the cycle ends.  So between the two a
reader may find a last round trip outside the range that is shown
(`last_round_trip_out_of_range`).

What can be relied on at every moment is `live_figures_coherent`.  Between two
cycles the range of every hop that has answered is right.  During a cycle,
until it is brought up to date, the range is the one of the cycle's beginning:
still right for every hop that no reply was entered for since, and made of
measured round trips for every hop that had answered before.
-/

namespace PathMeter.Ledger

/-- No round trip that a cycle enters is longer than the clock has run. -/
theorem Underway.samples_le {base l : Ledger} {now began : Duration}
    (hl : base.Underway now l) (hbase : base.UpToDate) (hle : began ≤ now)
    (hbegan : ∀ g ∈ base.hops, ∀ d ∈ g.samples, d ≤ began) :
    ∀ h ∈ l.hops, ∀ d ∈ h.samples, d ≤ now := by
  intro h hh d hd
  obtain ⟨n, hn⟩ := exists_hop?_of_mem hh
  obtain ⟨g, hg, hstage⟩ := hl.hops.exists_left hn
  have hg := mem_of_hop? hg
  have hold : ∀ d ∈ g.samples, d ≤ now := fun d hd => Nat.le_trans (hbegan g hg d hd) hle
  rcases hstage.samples_eq (hbase g hg) with hsame | ⟨d', hd', hone⟩
  · rw [hsame] at hd
    exact hold d hd
  · rw [hone] at hd
    rcases List.mem_append.1 hd with hd | hd
    · exact hold d hd
    · rw [List.mem_singleton.1 hd]
      exact hd'

/-- Bringing figures up to date leaves the round trips alone. -/
theorem samples_finalize {l : Ledger} {now : Duration}
    (hl : ∀ h ∈ l.hops, ∀ d ∈ h.samples, d ≤ now) :
    ∀ h ∈ l.finalize.hops, ∀ d ∈ h.samples, d ≤ now := by
  intro h hh
  obtain ⟨g, hg, rfl⟩ := List.mem_map.1 hh
  exact hl g hg

end PathMeter.Ledger

namespace PathMeter.Engine

/-- The shortest and the longest round trip that a hop shows were measured for
it by now, and the tables print them. -/
structure Genuine (now : Duration) (h : Hop) : Prop where
  shortest : h.shortest ∈ h.samples
  longest : h.longest ∈ h.samples
  ordered : h.shortest ≤ h.longest
  /-- The clock itself would have to run past the longest duration. -/
  isSet : now < Duration.limit → h.shortest ≠ Duration.limit
  csv : (Export.Csv.row h.view)[8]? = some (Export.Csv.millis h.shortest)
  report : Export.Report.figure h.view h.shortest = Export.Report.millis h.shortest

/-- The range that a hop shows holds its last round trip. -/
def InRange (h : Hop) : Prop :=
  h.shortest ≤ h.last ∧ h.last ≤ h.longest

section Hop

variable {now : Duration} {h : Hop}

/-- Figures over some of the round trips of a hop show measured ones. -/
theorem genuine_of_figures {xs : List Duration} (hfigures : h.figures = Sample.of xs)
    (hne : xs ≠ []) (hsub : ∀ d ∈ xs, d ∈ h.samples) (hreceived : 0 < h.received)
    (hnow : ∀ d ∈ h.samples, d ≤ now) : Genuine now h := by
  have hshortest : h.shortest = (Sample.of xs).shortest := congrArg Sample.shortest hfigures
  have hlongest : h.longest = (Sample.of xs).longest := congrArg Sample.longest hfigures
  obtain ⟨hmem, hleast⟩ := Sample.shortest_spec hne
  obtain ⟨hmem', -⟩ := Sample.longest_spec hne
  rw [← hshortest] at hmem hleast
  rw [← hlongest] at hmem'
  constructor
  case shortest => exact hsub _ hmem
  case longest => exact hsub _ hmem'
  case ordered => exact hleast _ hmem'
  case isSet =>
    intro hlt heq
    have hle := hnow _ (hsub _ hmem)
    rw [heq] at hle
    exact Nat.not_lt.2 hle hlt
  case csv => simp [Export.Csv.row, Export.Csv.figure, Hop.view, hreceived]
  case report => simp [Export.Report.figure, Hop.view, hreceived]

/-- The last round trip of a hop that has answered is one of those on record. -/
theorem last_mem (hh : h.Coherent) (hreceived : 0 < h.received) : h.last ∈ h.samples := by
  rw [hh.last_eq]
  rcases List.eq_nil_or_concat h.samples with hnil | ⟨xs, d, hconcat⟩
  · have hlength := hh.length_samples
    rw [hnil, List.length_nil] at hlength
    omega
  · rw [hconcat, List.concat_eq_append, List.getLastD_concat]
    exact List.mem_append_right _ List.mem_cons_self

theorem inRange_of_figures (hfigures : h.figures = Sample.of h.samples) (hh : h.Coherent)
    (hreceived : 0 < h.received) : InRange h := by
  have hlast := last_mem hh hreceived
  have hne := List.ne_nil_of_mem hlast
  have hshortest : h.shortest = (Sample.of h.samples).shortest := congrArg Sample.shortest hfigures
  have hlongest : h.longest = (Sample.of h.samples).longest := congrArg Sample.longest hfigures
  constructor
  · rw [hshortest]
    exact (Sample.shortest_spec hne).2 _ hlast
  · rw [hlongest]
    exact (Sample.longest_spec hne).2 _ hlast

/-- Figures over all round trips are right. -/
theorem right_of_figures (hfigures : h.figures = Sample.of h.samples) (hh : h.Coherent)
    (hreceived : 0 < h.received) (hnow : ∀ d ∈ h.samples, d ≤ now) :
    Genuine now h ∧ InRange h :=
  ⟨genuine_of_figures hfigures (List.ne_nil_of_mem (last_mem hh hreceived)) (fun _ hd => hd)
    hreceived hnow, inRange_of_figures hfigures hh hreceived⟩

end Hop

variable {e : Engine} {waiting : List Arrival} {asked : List String} {s : State}

theorem samples_le_cycle (hs : s.ledger.UpToDate)
    (hclock : ∀ g ∈ s.ledger.hops, ∀ d ∈ g.samples, d ≤ s.clock) (e : Engine) (stop : Stop) :
    ∀ g ∈ (e.cycle stop s).state.ledger.hops, ∀ d ∈ g.samples,
      d ≤ (e.cycle stop s).state.clock := by
  have hcourse := cycle_course e stop s
  rw [cycle_state]
  exact Ledger.samples_finalize (hcourse.now.samples_le hs hcourse.clock hclock)

/-- No round trip is longer than the clock has run. -/
theorem Reachable.samples_le (h : Reachable e waiting asked s) :
    ∀ g ∈ s.ledger.hops, ∀ d ∈ g.samples, d ≤ s.clock := by
  induction h with
  | start =>
      intro g hg
      obtain ⟨n, -, rfl⟩ := List.mem_map.1 hg
      simp [Hop.new]
  | wait d _ ih => exact fun g hg x hx => Nat.le_trans (ih g hg x hx) (Nat.le_add_right _ _)
  | markStart _ ih => exact markStart_cases (fun _ => ih) fun _ => ih
  | complete stop _ h _ _ ih | cut stop h _ _ ih => exact samples_le_cycle h.upToDate ih _ stop

/-- A moment at the end of a cycle, when the figures have been brought up to
date. -/
def AtEnd (e : Engine) (waiting : List Arrival) (asked : List String) (m : Moment) : Prop :=
  ∃ s stop, Reachable e waiting asked s ∧ stop.raised s = false ∧
    m = ⟨(e.cycle stop s).state.clock, (e.cycle stop s).state.ledger⟩

/-- A moment during a cycle that began in some state, before its end. -/
def Within (e : Engine) (waiting : List Arrival) (asked : List String) (s : State)
    (m : Moment) : Prop :=
  Reachable e waiting asked s ∧ ∃ stop, stop.raised s = false ∧
    m ∈ ((e.cycle stop s).state.momentsSince s).tail

theorem During.within_or_atEnd {m : Moment} (h : During e waiting asked s m) :
    Within e waiting asked s m ∨ AtEnd e waiting asked m := by
  obtain ⟨hs, stop, hstop, hm⟩ := h
  obtain ⟨-, new, hmoments, -⟩ := timeline_cycle e stop s
  rw [hmoments] at hm
  rcases List.mem_cons.1 hm with rfl | hm
  · exact Or.inr ⟨s, stop, hs, hstop, rfl⟩
  · exact Or.inl ⟨hs, stop, hstop, by rwa [hmoments]⟩

/-- A ledger within a cycle is underway from the one at its beginning. -/
theorem Within.underway {m : Moment} (h : Within e waiting asked s m) :
    s.clock ≤ m.instant ∧ s.ledger.Underway m.instant m.ledger := by
  obtain ⟨-, stop, -, hm⟩ := h
  obtain ⟨-, new, hmoments, hnew⟩ := timeline_cycle e stop s
  rw [hmoments, List.tail_cons] at hm
  exact hnew m hm

/-- A cycle that is underway has the hops that it began with. -/
theorem Within.length_hops {m : Moment} (h : Within e waiting asked s m) :
    s.ledger.hops.length = m.ledger.hops.length := by
  have hnumbers := h.underway.2.hops.numbers_eq fun _ _ hstage => hstage.number_eq
  have hlength := congrArg List.length hnumbers
  rw [List.length_map, List.length_map] at hlength
  exact hlength.symm

/-- The range of every hop that has answered is right. -/
def AllRight (m : Moment) : Prop :=
  ∀ h ∈ m.ledger.hops, 0 < h.received → Genuine m.instant h ∧ InRange h

/-- What a reader can rely on within a cycle, of a hop and of what it was at the
cycle's beginning. -/
structure AsBegun (m : Moment) (g h : Hop) : Prop where
  /-- The figures are those of the cycle's beginning. -/
  figures : h.figures = Sample.of g.samples
  /-- They are right for a hop that no reply was entered for since. -/
  quiet : h.received = g.received → 0 < h.received → Genuine m.instant h ∧ InRange h
  /-- They were measured for a hop that had answered before. -/
  answered : 0 < g.received → Genuine m.instant h

theorem Between.allRight {m : Moment} (h : Between e waiting asked m) : AllRight m := by
  obtain ⟨s, hs, rfl⟩ := h
  intro g hg hreceived
  have hdate := hs.upToDate g hg
  exact right_of_figures hdate.figures_eq hdate.toCoherent hreceived (hs.samples_le g hg)

theorem AtEnd.allRight {m : Moment} (h : AtEnd e waiting asked m) : AllRight m := by
  obtain ⟨s, stop, hs, -, rfl⟩ := h
  intro g hg hreceived
  have hdate := upToDate_cycle hs.upToDate e stop g hg
  exact right_of_figures hdate.figures_eq hdate.toCoherent hreceived
    (samples_le_cycle hs.upToDate hs.samples_le e stop g hg)

theorem Within.asBegun {m : Moment} (h : Within e waiting asked s m) {n : Nat} {g : Hop}
    (hg : s.ledger.hop? n = some g) :
    ∃ g', m.ledger.hop? n = some g' ∧ AsBegun m g g' := by
  have hs := h.1
  obtain ⟨hclock, hm⟩ := h.underway
  obtain ⟨g', hg', hstage⟩ := hm.hops.exists_right hg
  have hdate := hs.upToDate g (Ledger.mem_of_hop? hg)
  have hcoherent := hstage.coherent hdate
  have hfigures := hstage.figures_eq hdate
  have hnow := hm.samples_le hs.upToDate hclock hs.samples_le g' (Ledger.mem_of_hop? hg')
  refine ⟨g', hg', ?_⟩
  constructor
  case figures => exact hfigures
  case quiet =>
    intro hsame hreceived
    have hsamples : g'.samples = g.samples := by
      rcases hstage.samples_eq hdate with heq | ⟨d, -, hone⟩
      · exact heq
      · -- one more round trip would be one more reply
        have hlength := congrArg List.length hone
        rw [List.length_append, List.length_singleton, hcoherent.length_samples,
          hdate.length_samples] at hlength
        omega
    rw [← hsamples] at hfigures
    exact right_of_figures hfigures hcoherent hreceived hnow
  case answered =>
    intro hanswered
    have hsub : ∀ d ∈ g.samples, d ∈ g'.samples := by
      intro d hd
      rcases hstage.samples_eq hdate with heq | ⟨d', -, hone⟩
      · rw [heq]
        exact hd
      · rw [hone]
        exact List.mem_append_left _ hd
    have hlast := last_mem hdate.toCoherent hanswered
    have hreceived : 0 < g'.received := by
      rw [← hcoherent.length_samples]
      exact List.length_pos_of_mem (hsub _ hlast)
    exact genuine_of_figures hfigures (List.ne_nil_of_mem hlast) hsub hreceived hnow

/-- **What figures are worth at every moment of every history.**  Between two
cycles and at the end of one they are right for every hop that has answered.
Within a cycle they are still those of its beginning, hop by hop.  There are no
other moments. -/
theorem live_figures_coherent (e : Engine) (waiting : List Arrival) (asked : List String)
    (visits : List Visit) :
    ∀ m ∈ (e.history waiting asked visits).timeline,
      (Between e waiting asked m ∨ AtEnd e waiting asked m ∨ ∃ s, Within e waiting asked s m) ∧
        (Between e waiting asked m ∨ AtEnd e waiting asked m → AllRight m) ∧
        ∀ s, Within e waiting asked s m → s.ledger.hops.length = m.ledger.hops.length ∧
          ∀ n g, s.ledger.hop? n = some g →
            ∃ h, m.ledger.hop? n = some h ∧ AsBegun m g h := by
  intro m hm
  refine ⟨?_, ?_, fun s hwithin => ⟨hwithin.length_hops, fun n g hg => hwithin.asBegun hg⟩⟩
  · rcases (history_reachable e waiting asked visits).moments m hm with hbetween | ⟨s, hduring⟩
    · exact Or.inl hbetween
    · rcases hduring.within_or_atEnd with hwithin | hend
      · exact Or.inr (Or.inr ⟨s, hwithin⟩)
      · exact Or.inr (Or.inl hend)
  · rintro (hbetween | hend)
    · exact hbetween.allRight
    · exact hend.allRight

/-- A path of one hop that answers the first probe slowly and the second one
faster. -/
def quickeningTrial : Engine :=
  trial 2 0 [{ AnswerRule.plain 1 (5 * Duration.millisecond) ⟨192, 168, 1, 1⟩ with
      cycles := some [0] },
    { AnswerRule.plain 1 (3 * Duration.millisecond) ⟨192, 168, 1, 1⟩ with
      cycles := some [1] }]

/-- Two runs of one cycle each. -/
def twoRuns : List Visit :=
  [⟨0, .never, 0⟩, ⟨0, .never, 0⟩]

/-- A reader who looks after the second answer and before the end of its cycle
finds a last round trip that is shorter than the shortest. -/
theorem last_round_trip_out_of_range :
    (∃ m ∈ (quickeningTrial.history [] [] twoRuns).timeline, ∃ h ∈ m.ledger.hops,
      h.received = 2 ∧ h.shortest = 5 * Duration.millisecond ∧
        h.last = 3 * Duration.millisecond ∧ h.longest = 5 * Duration.millisecond) ∧
    ¬ ∀ m ∈ (quickeningTrial.history [] [] twoRuns).timeline, ∀ h ∈ m.ledger.hops,
      0 < h.received → h.shortest ≤ h.last ∧ h.last ≤ h.longest := by
  constructor <;> decide +kernel

/-- At that very moment, which is within the second cycle, the figures shown are
still the measured ones of its beginning. -/
theorem figures_as_begun_within_second_cycle :
    ∃ m ∈ (quickeningTrial.history [] [] twoRuns).timeline,
      m.ledger.hops.map (fun h => (h.received, h.shortest, h.last)) =
        [(2, 5 * Duration.millisecond, 3 * Duration.millisecond), (0, Duration.limit, 0)] ∧
      ¬ AllRight m ∧ ∃ s, Within quickeningTrial [] [] s m ∧
        s.ledger.hops.length = m.ledger.hops.length ∧ ∀ n g, s.ledger.hop? n = some g →
          ∃ h, m.ledger.hop? n = some h ∧ AsBegun m g h := by
  let m := (quickeningTrial.history [] [] twoRuns).timeline.get ⟨2, by decide +kernel⟩
  have hmem : m ∈ (quickeningTrial.history [] [] twoRuns).timeline := List.get_mem _ _
  obtain ⟨hplaced, hright, hbegun⟩ :=
    live_figures_coherent quickeningTrial [] [] twoRuns m hmem
  have hwrong : ¬ AllRight m := by
    intro hright
    have hrange : ∀ h ∈ m.ledger.hops, 0 < h.received → h.shortest ≤ h.last :=
      fun h hh hreceived => (hright h hh hreceived).2.1
    revert hrange
    decide +kernel
  obtain ⟨s, hwithin⟩ : ∃ s, Within quickeningTrial [] [] s m := by
    rcases hplaced with hbetween | hend | hwithin
    · exact absurd (hright (Or.inl hbetween)) hwrong
    · exact absurd (hright (Or.inr hend)) hwrong
    · exact hwithin
  exact ⟨m, hmem, by decide +kernel, hwrong, s, hwithin, hbegun s hwithin⟩

end PathMeter.Engine
