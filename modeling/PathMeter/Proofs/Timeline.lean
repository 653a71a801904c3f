import PathMeter.Proofs.Reachable
import PathMeter.Proofs.Stage

/-!
# The ledger from instant to instant

The timeline of a state holds the ledger after each change, so it is what a
reader could have seen at any instant.  This file says what a cycle adds to
it.  Each ledger on the way differs from the one at the cycle's beginning by
the stages of its hops and by nothing else (`cycle_course`), and at the end
every hop is brought up to date, whether the pass was completed or cut short
(`Reachable.upToDate`).  Entries go forward only: an earlier ledger never
counts more than a later one (`Reachable.ascending`).

Every moment of a history is thus one between two cycles, where the ledger is
that of a reachable state, or one during a cycle that began in such a state
(`Reachable.moments`).
-/

namespace PathMeter.Ledger

/-- The hops of two ledgers are related position by position. -/
def Each (R : Hop → Hop → Prop) (l l' : Ledger) : Prop :=
  ∀ n, Option.Rel R (l.hop? n) (l'.hop? n)

section Each

variable {R : Hop → Hop → Prop} {l l' : Ledger}

theorem Each.exists_right (h : Each R l l') {n : Nat} {g : Hop} (hg : l.hop? n = some g) :
    ∃ g', l'.hop? n = some g' ∧ R g g' := by
  have hn := h n
  rw [hg] at hn
  cases hg' : l'.hop? n with
  | none =>
      rw [hg'] at hn
      cases hn
  | some g' =>
      rw [hg'] at hn
      cases hn with
      | some hr => exact ⟨g', rfl, hr⟩

theorem Each.exists_left (h : Each R l l') {n : Nat} {g' : Hop} (hg' : l'.hop? n = some g') :
    ∃ g, l.hop? n = some g ∧ R g g' := by
  have hn := h n
  rw [hg'] at hn
  cases hg : l.hop? n with
  | none =>
      rw [hg] at hn
      cases hn
  | some g =>
      rw [hg] at hn
      cases hn with
      | some hr => exact ⟨g, rfl, hr⟩

theorem Each.refl (hR : ∀ g, R g g) (l : Ledger) : Each R l l := by
  intro n
  cases l.hop? n with
  | none => exact .none
  | some g => exact .some (hR g)

/-- Two ledgers with the same positions are related if the hops found at them
are. -/
theorem Each.of_exists
    (hright : ∀ n g, l.hop? n = some g → ∃ g', l'.hop? n = some g' ∧ R g g')
    (hleft : ∀ n g', l'.hop? n = some g' → ∃ g, l.hop? n = some g) : Each R l l' := by
  intro n
  cases hg : l.hop? n with
  | some g =>
      obtain ⟨g', hg', hr⟩ := hright n g hg
      rw [hg']
      exact .some hr
  | none =>
      cases hg' : l'.hop? n with
      | none => exact .none
      | some g' =>
          obtain ⟨g, hg''⟩ := hleft n g' hg'
          simp [hg] at hg''

theorem Each.imp {S : Hop → Hop → Prop} (h : Each R l l') (hRS : ∀ g g', R g g' → S g g') :
    Each S l l' := by
  apply Each.of_exists
  · intro n g hg
    obtain ⟨g', hg', hr⟩ := h.exists_right hg
    exact ⟨g', hg', hRS g g' hr⟩
  · intro n g' hg'
    obtain ⟨g, hg, -⟩ := h.exists_left hg'
    exact ⟨g, hg⟩

/-- An entry keeps two ledgers related if it keeps the hop that it names
related. -/
theorem Each.updateHop (h : Each R l l') {n : Nat} {f : Hop → Hop}
    (hf : ∀ g g', l.hop? n = some g → l'.hop? n = some g' → R g g' → R g (f g')) :
    Each R l (l'.updateHop n f) := by
  intro m
  by_cases hm : m = n
  · subst hm
    rw [hop?_updateHop_self]
    cases hg' : l'.hop? m with
    | none => simpa [hg'] using h m
    | some g' =>
        obtain ⟨g, hg, hr⟩ := h.exists_left hg'
        rw [hg]
        exact .some (hf g g' hg hg' hr)
  · rw [hop?_updateHop_of_ne f hm]
    exact h m

end Each

/-- Related hops with the same numbers stand in the same order. -/
theorem Each.numbers_eq {R : Hop → Hop → Prop} {l l' : Ledger} (h : Each R l l')
    (hR : ∀ g g', R g g' → g'.number = g.number) :
    l'.hops.map (·.number) = l.hops.map (·.number) := by
  apply List.ext_getElem?
  intro i
  have hi : ∀ k : Ledger, k.hops[i]? = k.hop? (i + 1) := fun _ => rfl
  rw [List.getElem?_map, List.getElem?_map, hi, hi]
  cases hg : l.hop? (i + 1) with
  | some g =>
      obtain ⟨g', hg', hr⟩ := h.exists_right hg
      rw [hg']
      exact congrArg some (hR g g' hr)
  | none =>
      cases hg' : l'.hop? (i + 1) with
      | none => rfl
      | some g' =>
          obtain ⟨g, hg'', -⟩ := h.exists_left hg'
          simp [hg] at hg''

/-- Every hop of a ledger stands at some position. -/
theorem exists_hop?_of_mem {l : Ledger} {h : Hop} (hh : h ∈ l.hops) :
    ∃ n, l.hop? n = some h := by
  obtain ⟨i, hi⟩ := List.getElem?_of_mem hh
  exact ⟨i + 1, by simpa [hop?] using hi⟩

theorem updateHop_eq (l : Ledger) (n : Nat) (f : Hop → Hop) :
    l.updateHop n f = { l with hops := (l.updateHop n f).hops } := by
  unfold updateHop
  split <;> rfl

/-- A ledger at an instant within a cycle that began with another one: every
hop is at some stage, and nothing but the hops has changed. -/
structure Underway (base : Ledger) (now : Duration) (l : Ledger) : Prop where
  frame : l = { base with hops := l.hops }
  hops : Each (fun g h => g.Stage now h) base l

section Underway

variable {base l : Ledger} {now : Duration}

theorem Underway.refl (base : Ledger) (now : Duration) : Underway base now base :=
  ⟨rfl, Each.refl (fun _ => .quiet) base⟩

theorem Underway.mono (h : Underway base now l) {later : Duration} (hle : now ≤ later) :
    Underway base later l :=
  ⟨h.frame, h.hops.imp fun _ _ hstage => hstage.mono hle⟩

theorem Underway.updateHop (h : Underway base now l) {n : Nat} {f : Hop → Hop}
    (hf : ∀ g g', base.hop? n = some g → l.hop? n = some g' → g.Stage now g' →
      g.Stage now (f g')) :
    Underway base now (l.updateHop n f) := by
  refine ⟨?_, h.hops.updateHop hf⟩
  rw [updateHop_eq]
  exact congrArg (fun l' : Ledger => { l' with hops := (l.updateHop n f).hops }) h.frame

end Underway

/-- A ledger all of whose hops are up to date. -/
def UpToDate (l : Ledger) : Prop :=
  ∀ h ∈ l.hops, h.UpToDate

theorem upToDate_new (target : String) (destination : IPv4) (m : Nat) (t : Time.Timestamp) :
    (Ledger.new target destination m t).UpToDate := by
  intro h hh
  obtain ⟨n, -, rfl⟩ := List.mem_map.1 hh
  exact Hop.upToDate_new n

theorem Underway.coherent {base l : Ledger} {now : Duration} (hbase : base.UpToDate)
    (hl : Underway base now l) : ∀ h ∈ l.hops, h.Coherent := by
  intro h hh
  obtain ⟨n, hn⟩ := exists_hop?_of_mem hh
  obtain ⟨g, hg, hstage⟩ := hl.hops.exists_left hn
  exact hstage.coherent (hbase g (mem_of_hop? hg))

theorem finalize_upToDate {l : Ledger} (hl : ∀ h ∈ l.hops, h.Coherent) :
    l.finalize.UpToDate := by
  intro h hh
  obtain ⟨g, hg, rfl⟩ := List.mem_map.1 hh
  exact (hl g hg).finalize

/-- A ledger later on: counters, time and known addresses only grow. -/
structure Grows (l l' : Ledger) : Prop where
  cycles : l.cycles ≤ l'.cycles
  duration : l.duration ≤ l'.duration
  hops : Each Hop.Grows l l'

namespace Grows

variable {l l' l'' : Ledger}

theorem refl (l : Ledger) : l.Grows l :=
  ⟨Nat.le_refl _, Nat.le_refl _, Each.refl Hop.Grows.refl l⟩

theorem trans (h₁ : l.Grows l') (h₂ : l'.Grows l'') : l.Grows l'' := by
  refine ⟨Nat.le_trans h₁.cycles h₂.cycles, Nat.le_trans h₁.duration h₂.duration, ?_⟩
  apply Each.of_exists
  · intro n g hg
    obtain ⟨g', hg', hgrow⟩ := h₁.hops.exists_right hg
    obtain ⟨g'', hg'', hgrow'⟩ := h₂.hops.exists_right hg'
    exact ⟨g'', hg'', hgrow.trans hgrow'⟩
  · intro n g'' hg''
    obtain ⟨g', hg', -⟩ := h₂.hops.exists_left hg''
    obtain ⟨g, hg, -⟩ := h₁.hops.exists_left hg'
    exact ⟨g, hg⟩

/-- Entries of which each only adds. -/
theorem updateHop (l : Ledger) (n : Nat) {f : Hop → Hop} (hf : ∀ h, Hop.Grows h (f h)) :
    l.Grows (l.updateHop n f) := by
  have hops : Each Hop.Grows l (l.updateHop n f) :=
    (Each.refl Hop.Grows.refl l).updateHop fun _ g' _ _ hgrow => hgrow.trans (hf g')
  rw [updateHop_eq] at hops ⊢
  exact ⟨Nat.le_refl _, Nat.le_refl _, hops⟩

theorem finalize (hl : ∀ h ∈ l.hops, h.Coherent) : l.Grows l.finalize := by
  refine ⟨Nat.le_refl _, Nat.le_refl _, fun n => ?_⟩
  rw [Ledger.finalize, hop?_updateAll]
  cases hn : l.hop? n with
  | none => exact .none
  | some g => exact .some (Hop.Grows.finalize (hl g (mem_of_hop? hn)))

end Grows

end PathMeter.Ledger

namespace PathMeter.Engine

/-- The moments entered after an earlier state, newest first. -/
def State.momentsSince (s earlier : State) : List Moment :=
  s.timeline.take (s.timeline.length - earlier.timeline.length)

theorem momentsSince_of_append {s s' : State} {new : List Moment}
    (h : s'.timeline = new ++ s.timeline) : s'.momentsSince s = new := by
  simp [State.momentsSince, h]

/-- A state in which everything of a cycle is gathered and only the figures are
not yet brought up to date. -/
def gathered (e : Engine) (stop : Stop) (s : State) : State :=
  if (e.passOf stop s).isComplete then
    (e.nameHops stop (e.heardIn stop s)).file (e.cycleReport stop s)
  else (e.passOf stop s).state.file (e.cycleReport stop s)

variable {e : Engine} {stop : Stop} {waiting : List Arrival} {asked : List String} {s s' : State}

theorem cycle_state (e : Engine) (stop : Stop) (s : State) :
    (e.cycle stop s).state = (e.gathered stop s).finalize := by
  unfold gathered
  split
  · next h => rw [cycle_of_complete h]
  · next h => rw [cycle_of_cut h]

/-- What probes, waits, replies, questions, names and reports preserve, a cycle
preserves until its figures are brought up to date. -/
theorem gathered_preserves {P : State → Prop}
    (hprobe : ∀ cycle hop s, P s → P (e.probe cycle hop s)) (hwait : ∀ s d, P s → P (s.wait d))
    (hleave : ∀ s queue, P s → P { s with queue := queue })
    (hreply : ∀ s n ip d, P s →
      P (s.record (s.ledger.updateHop n fun h => h.recordReply ip d)))
    (hask : ∀ s hop ip, P s → P (e.ask s hop ip).2) (hname : ∀ l s, P s → P (enterName l s))
    (hfile : ∀ s r, P s → P (s.file r)) (hs : P s) : P (e.gathered stop s) := by
  have huntil : ∀ s t, P s → P (s.waitUntil t) := by
    intro s t hs
    rw [waitUntil_eq_wait]
    exact hwait s _ hs
  have hpass : P (e.passOf stop s).state := sendPass_preserves (hprobe _) hwait hs
  unfold gathered
  split
  · apply hfile
    apply nameHops_preserves huntil hask hname
    exact (heardIn_heard e stop s).preserves huntil hleave hreply hpass
  · exact hfile _ _ hpass

/-! ### Within a cycle -/

/-- A state within a cycle that began in another one: its ledger is underway
from the one at the beginning, and so is every ledger entered in between. -/
structure Course (s s' : State) : Prop where
  clock : s.clock ≤ s'.clock
  now : s.ledger.Underway s'.clock s'.ledger
  timeline : ∃ new, s'.timeline = new ++ s.timeline ∧
    ∀ m ∈ new, s.clock ≤ m.instant ∧ s.ledger.Underway m.instant m.ledger

namespace Course

theorem refl (s : State) : Course s s :=
  ⟨Nat.le_refl _, .refl _ _, [], rfl, by simp⟩

theorem record (h : Course s s') {l : Ledger} (hl : s.ledger.Underway s'.clock l) :
    Course s (s'.record l) := by
  obtain ⟨new, htimeline, hnew⟩ := h.timeline
  refine ⟨h.clock, hl, ⟨s'.clock, l⟩ :: new, congrArg _ htimeline, ?_⟩
  intro m hm
  rcases List.mem_cons.1 hm with rfl | hm
  · exact ⟨h.clock, hl⟩
  · exact hnew m hm

theorem wait (h : Course s s') (d : Duration) : Course s (s'.wait d) :=
  ⟨Nat.le_trans h.clock (Nat.le_add_right _ _), h.now.mono (Nat.le_add_right _ _), h.timeline⟩

theorem waitUntil (h : Course s s') (t : Duration) : Course s (s'.waitUntil t) := by
  rw [waitUntil_eq_wait]
  exact h.wait _

/-- A hop that nothing has happened to yet may be probed. -/
theorem probe (h : Course s s') {cycle hop : Nat}
    (hquiet : s'.ledger.hop? hop = s.ledger.hop? hop) : Course s (e.probe cycle hop s') := by
  have hentered : s.ledger.Underway s'.clock (s'.ledger.updateHop hop Hop.recordSent) := by
    apply h.now.updateHop
    intro g g' hg hg' _
    rw [hquiet, hg] at hg'
    obtain rfl := Option.some.inj hg'
    exact .probed
  have hrecord := h.record hentered
  exact ⟨hrecord.clock, hrecord.now, hrecord.timeline⟩

theorem enterName (h : Course s s') (l : Lookup) : Course s (enterName l s') := by
  refine enterName_cases (fun _ => h) fun name _ => h.record (h.now.updateHop ?_)
  intro g g' _ _ hstage
  split
  · exact hstage.renamed _
  · exact hstage

end Course

/-- A send pass goes through hops that nothing has happened to yet. -/
theorem sendPass_course {cycle : Nat} {hops : List Nat} {awaited : List Awaited}
    (hnodup : hops.Nodup) (hs : Course s s')
    (hquiet : ∀ n ∈ hops, s'.ledger.hop? n = s.ledger.hop? n) :
    Course s (e.sendPass stop cycle hops s' awaited).state := by
  induction hops generalizing s' awaited with
  | nil => exact hs
  | cons hop rest ih =>
      obtain ⟨hnot, hrest⟩ := List.nodup_cons.1 hnodup
      unfold sendPass
      split
      · exact hs
      · apply ih hrest ((hs.probe (hquiet hop List.mem_cons_self)).wait _)
        intro n hn
        have hne : n ≠ hop := fun heq => hnot (heq ▸ hn)
        exact (Ledger.hop?_updateHop_of_ne _ hne).trans (hquiet n (List.mem_cons_of_mem _ hn))

/-- What a send pass enters: one send for each position that had its turn. -/
theorem sendPass_entries (e : Engine) (stop : Stop) (cycle : Nat) (hops : List Nat) (s : State)
    (awaited : List Awaited) :
    ∃ done, done <+: hops ∧
      (e.sendPass stop cycle hops s awaited).state.attempts.map (·.attempt.ttl) =
        done.reverse ++ s.attempts.map (·.attempt.ttl) ∧
      (e.sendPass stop cycle hops s awaited).state.ledger =
        done.foldl (fun l n => l.updateHop n Hop.recordSent) s.ledger := by
  induction hops generalizing s awaited with
  | nil => exact ⟨[], List.prefix_refl _, rfl, rfl⟩
  | cons hop rest ih =>
      unfold sendPass
      split
      · exact ⟨[], List.nil_prefix, rfl, rfl⟩
      · obtain ⟨done, hdone, hattempts, hledger⟩ :=
          ih ((e.probe cycle hop s).wait e.config.sendDelay)
            (if (e.outcome cycle hop s).isSent then awaited ++ [⟨hop, s.clock⟩] else awaited)
        refine ⟨hop :: done, List.cons_prefix_cons.2 ⟨rfl, hdone⟩, ?_, hledger⟩
        rw [hattempts, List.reverse_cons, List.append_assoc]
        rfl

/-- Entries for different hops are told apart. -/
theorem hop?_foldl_updateHop {hops : List Nat} (hnodup : hops.Nodup) (f : Hop → Hop) (l : Ledger)
    (n : Nat) :
    (hops.foldl (fun l m => l.updateHop m f) l).hop? n =
      if n ∈ hops then (l.hop? n).map f else l.hop? n := by
  induction hops generalizing l with
  | nil => rfl
  | cons m rest ih =>
      obtain ⟨hnot, hrest⟩ := List.nodup_cons.1 hnodup
      rw [List.foldl_cons, ih hrest]
      by_cases hn : n = m
      · subst hn
        rw [if_neg hnot, if_pos List.mem_cons_self, Ledger.hop?_updateHop_self]
      · rw [Ledger.hop?_updateHop_of_ne f hn]
        simp [hn]

theorem nodup_hops (e : Engine) : e.hops.Nodup :=
  List.nodup_range'

/-- After the send pass of a cycle every position that had its turn has one
send more, and the others are as they were. -/
theorem passOf_hop? (e : Engine) (stop : Stop) (s : State) (n : Nat) :
    (e.passOf stop s).state.ledger.hop? n =
      if n ∈ ((e.passOf stop s).state.sendingsSince s).map (·.attempt.ttl) then
        (s.ledger.hop? n).map Hop.recordSent
      else s.ledger.hop? n := by
  obtain ⟨done, hdone, hattempts, hledger⟩ :=
    sendPass_entries e stop s.ledger.cycles e.hops s []
  have hnodup : done.Nodup := (nodup_hops e).sublist hdone.sublist
  have hsince : ((e.passOf stop s).state.sendingsSince s).map (·.attempt.ttl) = done := by
    have hstory := sendPass_story e stop s.ledger.cycles e.hops s []
    rw [hstory.attempts, List.map_append, List.map_reverse] at hattempts
    exact List.reverse_inj.1 (List.append_cancel_right hattempts)
  rw [hsince]
  show (e.sendPass stop s.ledger.cycles e.hops s []).state.ledger.hop? n = _
  rw [hledger, hop?_foldl_updateHop hnodup]

/-- While the engine listens, a reply is entered for a hop that has been probed
in the same cycle and not been answered. -/
theorem Heard.course {cycle : Nat} {awaited : List Awaited} {l : Listening}
    (h : Heard e cycle (.start s' awaited) l) (hs : Course s s')
    (hprobed : ∀ a ∈ awaited,
      s'.ledger.hop? a.hop = (s.ledger.hop? a.hop).map Hop.recordSent) :
    Course s l.state := by
  induction h with
  | start => exact hs
  | wait t _ ih => exact ih.waitUntil t
  | fail _ ih => exact ih
  | leave queue _ ih => exact ⟨ih.clock, ih.now, ih.timeline⟩
  | @read l due packet h ih =>
      rcases take_cases e cycle l due packet with
        ⟨reply, a, -, -, ha, hhop, htake⟩ | ⟨verdict, -, -, htake⟩
      · rw [htake]
        apply ih.record
        apply ih.now.updateHop
        intro g g' hg hg' _
        have hfresh := h.hop?_of_mem_awaited ha
        rw [hprobed a (h.mem_awaited_iff.1 ha).1, hhop, hg, hg'] at hfresh
        obtain rfl := Option.some.inj hfresh
        exact .answered _ _ (Nat.sub_le _ _)
      · rw [htake]
        exact ih

/-- **The course of a cycle.**  Until the figures are brought up to date, every
ledger of a cycle is underway from the one at its beginning. -/
theorem cycle_course (e : Engine) (stop : Stop) (s : State) : Course s (e.gathered stop s) := by
  have hpass : Course s (e.passOf stop s).state :=
    sendPass_course (nodup_hops e) (.refl s) fun _ _ => rfl
  have hstory : Story e s.ledger.cycles e.hops s [] (e.passOf stop s)
      ((e.passOf stop s).state.sendingsSince s) := sendPass_story ..
  have hheard : Course s (e.heardIn stop s).state := by
    apply (heardIn_heard e stop s).course hpass
    intro a ha
    obtain ⟨x, hx, -, rfl⟩ := hstory.mem_awaited.1 ha
    rw [passOf_hop?, if_pos]
    exact List.mem_map_of_mem (f := fun y : Sending => y.attempt.ttl) hx
  unfold gathered
  split
  · have hnamed : Course s (e.nameHops stop (e.heardIn stop s)) :=
      nameHops_preserves (fun _ t h => h.waitUntil t)
        (fun _ _ _ h => ⟨h.clock, h.now, h.timeline⟩) (fun l _ h => h.enterName l) hheard
    exact ⟨hnamed.clock, hnamed.now, hnamed.timeline⟩
  · exact ⟨hpass.clock, hpass.now, hpass.timeline⟩

/-- What a cycle enters: ledgers underway from the one at its beginning, and at
the end the one that it leaves. -/
theorem timeline_cycle (e : Engine) (stop : Stop) (s : State) :
    (e.cycle stop s).state.timeline = (e.cycle stop s).state.momentsSince s ++ s.timeline ∧
      ∃ new, (e.cycle stop s).state.momentsSince s =
          ⟨(e.cycle stop s).state.clock, (e.cycle stop s).state.ledger⟩ :: new ∧
        ∀ m ∈ new, s.clock ≤ m.instant ∧ s.ledger.Underway m.instant m.ledger := by
  obtain ⟨new, htimeline, hnew⟩ := (cycle_course e stop s).timeline
  have hall : (e.cycle stop s).state.timeline =
      (⟨(e.cycle stop s).state.clock, (e.cycle stop s).state.ledger⟩ :: new) ++ s.timeline := by
    rw [cycle_state]
    exact congrArg _ htimeline
  rw [momentsSince_of_append hall]
  exact ⟨hall, new, rfl, hnew⟩

/-- A moment of a cycle is the one at its end, or its ledger is underway. -/
theorem end_or_underway {m : Moment} (hm : m ∈ (e.cycle stop s).state.momentsSince s) :
    m = ⟨(e.cycle stop s).state.clock, (e.cycle stop s).state.ledger⟩ ∨
      s.clock ≤ m.instant ∧ s.ledger.Underway m.instant m.ledger := by
  obtain ⟨-, new, hmoments, hnew⟩ := timeline_cycle e stop s
  rw [hmoments] at hm
  exact (List.mem_cons.1 hm).imp_right (hnew m)

/-! ### Between cycles -/

/-- A cycle leaves every hop up to date. -/
theorem upToDate_cycle (hs : s.ledger.UpToDate) (e : Engine) (stop : Stop) :
    (e.cycle stop s).state.ledger.UpToDate := by
  rw [cycle_state]
  exact Ledger.finalize_upToDate ((cycle_course e stop s).now.coherent hs)

/-- **Between cycles every hop is up to date.** -/
theorem Reachable.upToDate (h : Reachable e waiting asked s) : s.ledger.UpToDate := by
  induction h with
  | start => exact Ledger.upToDate_new _ _ _ _
  | wait _ _ ih => exact ih
  | markStart _ ih => exact markStart_cases (fun _ => ih) fun _ => ih
  | complete stop _ _ _ _ ih | cut stop _ _ _ ih => exact upToDate_cycle ih _ stop

/-- A cycle changes nothing but the hops. -/
theorem cycle_frame (e : Engine) (stop : Stop) (s : State) :
    (e.cycle stop s).state.ledger =
      { s.ledger with hops := (e.cycle stop s).state.ledger.hops } := by
  rw [cycle_state]
  exact congrArg Ledger.finalize (cycle_course e stop s).now.frame

theorem duration_cycle (e : Engine) (stop : Stop) (s : State) :
    (e.cycle stop s).state.ledger.duration = s.ledger.duration := by
  rw [cycle_frame]

theorem clock_markStart (e : Engine) (s : State) : (e.markStart s).clock = s.clock :=
  markStart_cases (fun _ => rfl) fun _ => rfl

theorem attempts_markStart (e : Engine) (s : State) : (e.markStart s).attempts = s.attempts :=
  markStart_cases (fun _ => rfl) fun _ => rfl

theorem passes_markStart (e : Engine) (s : State) : (e.markStart s).passes = s.passes :=
  markStart_cases (fun _ => rfl) fun _ => rfl

theorem cycles_markStart (e : Engine) (s : State) :
    (e.markStart s).ledger.cycles = s.ledger.cycles :=
  markStart_cases (fun _ => rfl) fun _ => rfl

/-- The log holds the start, if it was entered, and nothing else is added. -/
theorem timeline_markStart (e : Engine) (s : State) :
    ∃ new, (e.markStart s).timeline = new ++ s.timeline ∧
      ∀ m ∈ new, m = ⟨s.clock, (e.markStart s).ledger⟩ :=
  markStart_cases (fun _ => ⟨[_], rfl, fun _ => List.mem_singleton.1⟩) fun _ => ⟨[], rfl, by simp⟩

/-- No time is counted before the first completed cycle. -/
theorem Reachable.duration_eq_zero (h : Reachable e waiting asked s)
    (hcycles : s.ledger.cycles = 0) : s.ledger.duration = 0 := by
  induction h with
  | start => rfl
  | wait _ _ ih => exact ih hcycles
  | markStart =>
      rw [cycles_markStart] at hcycles
      exact markStart_cases (fun _ => rfl) fun hne => absurd hcycles hne
  | complete _ _ _ _ _ _ => exact absurd hcycles (Nat.succ_ne_zero _)
  | cut _ _ _ _ ih => exact (duration_cycle ..).trans (ih ((cycle_cycles ..).symm.trans hcycles))

/-- A state whose log is in order: the ledger in force is the last one in it, and
of any two the later one counts no less. -/
structure Ascending (s : State) : Prop where
  last : s.timeline.head?.map (·.ledger) = some s.ledger
  pairwise : s.timeline.Pairwise fun later earlier =>
    earlier.instant ≤ later.instant ∧ earlier.ledger.Grows later.ledger
  now : ∀ m ∈ s.timeline, m.instant ≤ s.clock ∧ m.ledger.Grows s.ledger

namespace Ascending

theorem record (h : Ascending s) {l : Ledger} (hl : s.ledger.Grows l) :
    Ascending (s.record l) := by
  refine ⟨rfl, List.pairwise_cons.2 ⟨?_, h.pairwise⟩, ?_⟩
  · exact fun m hm => ⟨(h.now m hm).1, (h.now m hm).2.trans hl⟩
  · intro m hm
    rcases List.mem_cons.1 hm with rfl | hm
    · exact ⟨Nat.le_refl _, .refl l⟩
    · exact ⟨(h.now m hm).1, (h.now m hm).2.trans hl⟩

theorem wait (h : Ascending s) (d : Duration) : Ascending (s.wait d) :=
  ⟨h.last, h.pairwise,
    fun m hm => ⟨Nat.le_trans (h.now m hm).1 (Nat.le_add_right _ _), (h.now m hm).2⟩⟩

theorem enterName (h : Ascending s) (l : Lookup) : Ascending (enterName l s) := by
  refine enterName_cases (fun _ => h) fun name _ => h.record (.updateHop _ _ fun g => ?_)
  split
  · exact .rename g _
  · exact .refl g

theorem gathered (h : Ascending s) (e : Engine) (stop : Stop) :
    Ascending (e.gathered stop s) := by
  refine gathered_preserves ?_ (fun _ d h => h.wait d) (fun _ _ h => ⟨h.last, h.pairwise, h.now⟩) ?_
    (fun _ _ _ h => ⟨h.last, h.pairwise, h.now⟩) (fun l _ h => h.enterName l)
    (fun _ _ h => ⟨h.last, h.pairwise, h.now⟩) h
  · intro cycle hop s h
    have hrecord := h.record (.updateHop s.ledger hop .recordSent)
    exact ⟨hrecord.last, hrecord.pairwise, hrecord.now⟩
  · exact fun s n ip d h => h.record (.updateHop s.ledger n fun g => .recordReply g ip d)

theorem cycle (h : Ascending s) (hs : s.ledger.UpToDate) (e : Engine) (stop : Stop) :
    Ascending (e.cycle stop s).state := by
  rw [cycle_state]
  exact (h.gathered e stop).record (.finalize ((cycle_course e stop s).now.coherent hs))

end Ascending

/-- **The log of a reachable state is in order.** -/
theorem Reachable.ascending (h : Reachable e waiting asked s) : Ascending s := by
  induction h with
  | start =>
      refine ⟨rfl, List.pairwise_singleton _ _, fun m hm => ?_⟩
      obtain rfl := List.mem_singleton.1 hm
      exact ⟨Nat.le_refl _, .refl _⟩
  | wait d _ ih => exact ih.wait d
  | @markStart s h ih =>
      refine markStart_cases (fun hcycles => ?_) fun _ => ih
      -- restarting the clock of the run loses nothing, as nothing is counted yet
      have hzero : s.ledger.duration ≤ 0 := Nat.le_of_eq (h.duration_eq_zero hcycles)
      exact ih.record ⟨Nat.le_refl _, hzero, .refl Hop.Grows.refl s.ledger⟩
  | complete stop mark h _ _ ih =>
      exact (ih.cycle h.upToDate e stop).record
        ⟨Nat.le_succ _, Nat.le_add_right _ _, .refl Hop.Grows.refl _⟩
  | cut stop h _ _ ih => exact ih.cycle h.upToDate e stop

/-- A moment between two cycles, before the first one, or after the last. -/
def Between (e : Engine) (waiting : List Arrival) (asked : List String) (m : Moment) : Prop :=
  ∃ s, Reachable e waiting asked s ∧ m = ⟨s.clock, s.ledger⟩

/-- A moment during a cycle that began in some state. -/
def During (e : Engine) (waiting : List Arrival) (asked : List String) (s : State)
    (m : Moment) : Prop :=
  Reachable e waiting asked s ∧ ∃ stop, stop.raised s = false ∧
    m ∈ (e.cycle stop s).state.momentsSince s

/-- **Every moment is between two cycles or during one.** -/
theorem Reachable.moments (h : Reachable e waiting asked s) :
    ∀ m ∈ s.timeline, Between e waiting asked m ∨ ∃ s', During e waiting asked s' m := by
  have hcycle : ∀ {s : State} (stop : Stop), Reachable e waiting asked s →
      stop.raised s = false →
      (∀ m ∈ s.timeline, Between e waiting asked m ∨ ∃ s', During e waiting asked s' m) →
      ∀ m ∈ (e.cycle stop s).state.timeline,
        Between e waiting asked m ∨ ∃ s', During e waiting asked s' m := by
    intro s stop h hstop ih m hm
    rw [(timeline_cycle e stop s).1] at hm
    rcases List.mem_append.1 hm with hm | hm
    · exact Or.inr ⟨s, h, stop, hstop, hm⟩
    · exact ih m hm
  induction h with
  | start =>
      intro m hm
      obtain rfl := List.mem_singleton.1 hm
      exact Or.inl ⟨_, .start, rfl⟩
  | wait _ _ ih => exact ih
  | @markStart s h ih =>
      intro m hm
      obtain ⟨new, htimeline, hnew⟩ := timeline_markStart e s
      rw [htimeline] at hm
      rcases List.mem_append.1 hm with hm | hm
      · rw [hnew m hm, ← clock_markStart e s]
        exact Or.inl ⟨_, h.markStart, rfl⟩
      · exact ih m hm
  | complete stop mark h hstop hcomplete ih =>
      intro m hm
      rcases List.mem_cons.1 hm with rfl | hm
      · exact Or.inl ⟨_, h.complete stop mark hstop hcomplete, rfl⟩
      · exact hcycle stop h hstop ih m hm
  | cut stop h hstop _ ih => exact hcycle stop h hstop ih

/-- During a cycle, too, the counters of every hop agree with each other. -/
theorem During.coherent {m : Moment} (h : During e waiting asked s m) :
    ∀ g ∈ m.ledger.hops, g.Coherent := by
  obtain ⟨hs, stop, -, hm⟩ := h
  rcases end_or_underway hm with rfl | hunderway
  · exact fun g hg => (upToDate_cycle hs.upToDate e stop g hg).toCoherent
  · exact hunderway.2.coherent hs.upToDate

end PathMeter.Engine
