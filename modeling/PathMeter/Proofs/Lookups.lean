import Mathlib.Order.Bounds.Defs
import PathMeter.Engine.Rehearsal
import PathMeter.Proofs.Naming
import PathMeter.Proofs.Timetable
import PathMeter.Proofs.Turns

/-!
# How names are looked up

After listening, the hops with a new responder are looked up.  `LookedUp` says
what comes of that, told by the lookups that were started: their timetable, the
instant at which it all ends, which of the answers count, and that nothing but
names has changed.

The argument follows the loop.  `Looking` is what holds each time round, with
the lookups started so far told apart by whether they have been answered.  A
hop without an address is passed over, a hop with one is asked for if a slot is
free, and otherwise the first answer is awaited; if it comes too late, or never,
that is the end.
-/

namespace PathMeter.Ledger

/-- The ledger without the names of the hops. -/
def withoutNames (l : Ledger) : Ledger :=
  l.updateAll fun h => h.rename none

theorem withoutNames_updateHop {f : Hop → Hop} (hf : ∀ h, (f h).rename none = h.rename none)
    (l : Ledger) (n : Nat) : (l.updateHop n f).withoutNames = l.withoutNames := by
  have hhops : (l.hops.modify (n - 1) f).map (·.rename none) = l.hops.map (·.rename none) := by
    apply List.ext_getElem?
    intro i
    rw [List.getElem?_map, List.getElem?_map, List.getElem?_modify]
    cases l.hops[i]? with
    | none => rfl
    | some h =>
        show some _ = some _
        split
        · exact congrArg some (hf h)
        · rfl
  unfold updateHop
  split
  · rfl
  · exact congrArg (fun hops => { l with hops }) hhops

theorem addressAt_withoutNames (l : Ledger) (n : Nat) :
    l.withoutNames.addressAt n = l.addressAt n := by
  rw [addressAt, addressAt, withoutNames, hop?_updateAll]
  cases l.hop? n <;> rfl

end PathMeter.Ledger

namespace PathMeter.Engine

variable {e : Engine} {stop : Stop} {b s : State} {hops waiting : List Nat}
  {calls done underWay : List Call} {c : Call}

/-! ### What is looked up, and when it ends -/

/-- What is to be looked up for some hops: the addresses that they have. -/
def targets (s : State) (hops : List Nat) : List (Nat × IPv4) :=
  hops.filterMap fun n => (s.ledger.addressAt n).map fun address => (n, address)

/-- Whether the answer comes in while it is waited for. -/
def Call.inTime (stop : Stop) (deadline : Duration) (c : Call) : Bool :=
  c.finish.any fun f => decide (f ≤ deadline) && stop.isAfter f

/-- Every hop is looked up once at most, if it is listed once. -/
theorem sublist_targets (s : State) (hops : List Nat) :
    ((targets s hops).map Prod.fst).Sublist hops := by
  induction hops with
  | nil => exact .slnil
  | cons n rest ih =>
      rw [targets, List.filterMap_cons]
      cases s.ledger.addressAt n with
      | none => exact ih.cons n
      | some address => exact ih.cons_cons n

/-- A state that differs from an earlier one by the clock, by questions asked and
by names of hops, and so does every ledger entered in between. -/
structure OnlyHostnames (b s : State) : Prop where
  queue : s.queue = b.queue
  attempts : s.attempts = b.attempts
  reports : s.reports = b.reports
  ledger : s.ledger.withoutNames = b.ledger.withoutNames
  timeline : ∃ new, s.timeline = new ++ b.timeline ∧
    ∀ m ∈ new, m.ledger.withoutNames = b.ledger.withoutNames

/-- Names entered since an earlier state: those of some answers and no others. -/
structure NamesEntered (b s : State) (answered : List Call) : Prop where
  named : ∀ c ∈ answered, ∀ name, c.answer.name = some name →
    s.ledger.hop? c.hop = (b.ledger.hop? c.hop).map (·.rename (some name))
  others : ∀ n, (∀ c ∈ answered, c.hop = n → c.answer.name = none) →
    s.ledger.hop? n = b.ledger.hop? n

/-- Lookups that were started from a state `b` on: what was asked, and what the
name service answers after the earlier questions. -/
structure Questioned (e : Engine) (b s : State) (calls : List Call) : Prop where
  questions : s.questions = (calls.map Call.asked).reverse ++ b.questions
  answers : ∀ i c, calls[i]? = some c →
    c.answer =
      e.names.name (((calls.take i).map Call.asked).reverse ++ b.questions) c.instant c.address

/-- What comes of looking up some hops from a state `b`: the state `s`, by these
lookups. -/
structure LookedUp (e : Engine) (stop : Stop) (hops : List Nat) (b s : State)
    (calls : List Call) : Prop
    extends Timetable b.clock (targets b hops) s.clock calls, Questioned e b s calls,
      OnlyHostnames b s where
  /-- It ends when all answers are in, when the time is up, or when the engine is
  told to stop, whichever comes first. -/
  ends : IsLeast {t | b.clock ≤ t ∧ (AllAnswered (targets b hops) calls t ∨
    t = b.clock + e.config.timeout ∨ stop.instant = some t)} s.clock
  /-- The names that are answered in time are entered, and no others. -/
  entered : NamesEntered b s (calls.filter (Call.inTime stop (b.clock + e.config.timeout)))

/-! ### Nothing but names -/

namespace OnlyHostnames

theorem refl (s : State) : OnlyHostnames s s :=
  ⟨rfl, rfl, rfl, rfl, [], rfl, by simp⟩

theorem waitUntil (h : OnlyHostnames b s) (t : Duration) : OnlyHostnames b (s.waitUntil t) :=
  ⟨h.queue, h.attempts, h.reports, h.ledger, h.timeline⟩

theorem ask (h : OnlyHostnames b s) (e : Engine) (hop : Nat) (ip : IPv4) :
    OnlyHostnames b (e.ask s hop ip).2 :=
  ⟨h.queue, h.attempts, h.reports, h.ledger, h.timeline⟩

theorem enterName (h : OnlyHostnames b s) (l : Lookup) : OnlyHostnames b (enterName l s) := by
  refine enterName_cases (fun _ => h) fun name _ => ?_
  have hsame : (s.ledger.updateHop l.hop fun h =>
      if h.address = some l.address then h.rename (some name) else h).withoutNames =
        b.ledger.withoutNames := by
    refine (Ledger.withoutNames_updateHop (fun h => ?_) _ _).trans h.ledger
    split <;> rfl
  obtain ⟨new, htimeline, hnew⟩ := h.timeline
  refine ⟨h.queue, h.attempts, h.reports, hsame, _ :: new, congrArg _ htimeline, ?_⟩
  intro m hm
  rcases List.mem_cons.1 hm with rfl | hm
  · exact hsame
  · exact hnew m hm

theorem addressAt_eq (h : OnlyHostnames b s) (n : Nat) :
    s.ledger.addressAt n = b.ledger.addressAt n := by
  rw [← Ledger.addressAt_withoutNames, h.ledger, Ledger.addressAt_withoutNames]

end OnlyHostnames

/-- A further answer is entered, for a hop that has the address asked for and had
no answer before. -/
theorem NamesEntered.enterName (h : NamesEntered b s done) (hfresh : ∀ x ∈ done, x.hop ≠ c.hop)
    (haddress : b.ledger.addressAt c.hop = some c.address) :
    NamesEntered b (enterName c.lookup s) (c :: done) := by
  have hkept : s.ledger.hop? c.hop = b.ledger.hop? c.hop :=
    h.others c.hop fun x hx heq => absurd heq (hfresh x hx)
  refine enterName_cases (fun hnone => ?_) fun name hsome => ?_
  · have hnone : c.answer.name = none := hnone
    constructor
    case named =>
      intro x hx name hname
      rcases List.mem_cons.1 hx with rfl | hx
      · simp [hnone] at hname
      · exact h.named x hx name hname
    case others => exact fun n hn => h.others n fun x hx => hn x (List.mem_cons_of_mem _ hx)
  · have hsome : c.answer.name = some name := hsome
    have hentered : ∀ g, b.ledger.hop? c.hop = some g →
        (if g.address = some c.address then g.rename (some name) else g) =
          g.rename (some name) := by
      intro g hg
      rw [Ledger.addressAt, hg] at haddress
      exact if_pos haddress
    constructor
    case named =>
      intro x hx name' hname'
      rcases List.mem_cons.1 hx with rfl | hx
      · obtain rfl := Option.some.inj (hsome.symm.trans hname')
        refine (Ledger.hop?_updateHop_self ..).trans ?_
        show (s.ledger.hop? x.hop).map _ = _
        rw [hkept]
        exact Option.map_congr hentered
      · exact (Ledger.hop?_updateHop_of_ne _ (hfresh x hx)).trans (h.named x hx name' hname')
    case others =>
      intro n hn
      have hne : n ≠ c.hop := by
        rintro rfl
        simp [hsome] at hn
      refine (Ledger.hop?_updateHop_of_ne _ hne).trans ?_
      exact h.others n fun x hx => hn x (List.mem_cons_of_mem _ hx)

/-! ### Before the time is up -/

theorem Stop.isAfter_iff {t : Duration} :
    stop.isAfter t = true ↔ ∀ c, stop.instant = some c → t < c := by
  simp [Stop.isAfter, Option.all_eq_true]

theorem Stop.cut_spec (stop : Stop) (deadline : Duration) :
    stop.cut deadline ≤ deadline ∧ (∀ c, stop.instant = some c → stop.cut deadline ≤ c) ∧
      (stop.cut deadline = deadline ∨ stop.instant = some (stop.cut deadline)) := by
  unfold Stop.cut
  cases stop.instant with
  | none =>
      refine ⟨Nat.le_refl _, fun c hc => ?_, Or.inl rfl⟩
      cases hc
  | some c =>
      refine ⟨Nat.min_le_right _ _, fun c' hc' => ?_, ?_⟩
      · obtain rfl := Option.some.inj hc'
        exact Nat.min_le_left _ _
      · rcases Nat.le_total c deadline with hle | hle
        · exact Or.inr (congrArg some (Nat.min_eq_left hle).symm)
        · exact Or.inl (Nat.min_eq_right hle)

/-- What is in time is no later than the end. -/
theorem Stop.le_cut {deadline t : Duration} (hle : t ≤ deadline)
    (hafter : stop.isAfter t = true) : t ≤ stop.cut deadline := by
  obtain ⟨-, -, heither⟩ := stop.cut_spec deadline
  rcases heither with heq | heq
  · rwa [heq]
  · exact Nat.le_of_lt (Stop.isAfter_iff.1 hafter _ heq)

/-- What is not in time is no earlier than the end. -/
theorem Stop.cut_le {deadline t : Duration} (h : ¬ (t ≤ deadline ∧ stop.isAfter t = true)) :
    stop.cut deadline ≤ t := by
  obtain ⟨hdeadline, hinstant, -⟩ := stop.cut_spec deadline
  rcases Nat.lt_or_ge deadline t with hlate | hle
  · exact Nat.le_trans hdeadline (Nat.le_of_lt hlate)
  · have htold : ¬ ∀ c, stop.instant = some c → t < c := fun hall =>
      h ⟨hle, Stop.isAfter_iff.2 hall⟩
    simp only [Classical.not_forall, Nat.not_lt] at htold
    obtain ⟨c, hc, hct⟩ := htold
    exact Nat.le_trans (hinstant c hc) hct

theorem Call.inTime_iff {deadline : Duration} :
    c.inTime stop deadline = true ↔
      ∃ f, c.finish = some f ∧ f ≤ deadline ∧ stop.isAfter f = true := by
  simp only [inTime, Option.any_eq_true, Bool.and_eq_true, decide_eq_true_eq]

/-- Who comes before an instant of stopping comes before it earlier too. -/
theorem Stop.isAfter_anti {t later : Duration} (h : stop.isAfter later = true) (hle : t ≤ later) :
    stop.isAfter t = true :=
  Stop.isAfter_iff.2 fun c hc => Nat.lt_of_le_of_lt hle (Stop.isAfter_iff.1 h c hc)

/-! ### The loop -/

/-- What holds each time round, while `waiting` have still to be looked up. -/
structure Looking (e : Engine) (stop : Stop) (hops : List Nat) (b : State) (waiting : List Nat)
    (s : State) (calls done underWay : List Call) : Prop
    extends Midway b.clock (targets b hops) s.clock calls done underWay, Questioned e b s calls,
      OnlyHostnames b s where
  rest : targets b hops = calls.map Call.target ++ targets b waiting
  inTime : ∀ c ∈ done, c.inTime stop (b.clock + e.config.timeout) = true
  entered : NamesEntered b s done

namespace Looking

variable {hop : Nat} {rest : List Nat}

theorem start (e : Engine) (stop : Stop) (hops : List Nat) (b : State) :
    Looking e stop hops b hops b [] [] [] where
  toMidway := .start _ _
  toQuestioned := ⟨rfl, by simp⟩
  toOnlyHostnames := .refl b
  rest := rfl
  inTime := by simp
  entered := ⟨by simp, fun _ _ => rfl⟩

/-- A hop without an address is passed over. -/
theorem skip (h : Looking e stop hops b (hop :: rest) s calls done underWay)
    (hnone : s.ledger.addressAt hop = none) :
    Looking e stop hops b rest s calls done underWay := by
  have htargets : targets b (hop :: rest) = targets b rest := by
    rw [h.addressAt_eq] at hnone
    simp [targets, hnone]
  exact ⟨h.toMidway, h.toQuestioned, h.toOnlyHostnames, htargets ▸ h.rest, h.inTime, h.entered⟩

/-- The lookup of an address that is asked for now. -/
def callFor (e : Engine) (s : State) (hop : Nat) (address : IPv4) : Call :=
  ⟨hop, address, s.clock, e.names.name s.questions s.clock address⟩

/-- A hop with an address is asked for if a slot is free. -/
theorem ask (h : Looking e stop hops b (hop :: rest) s calls done underWay) {address : IPv4}
    (haddress : s.ledger.addressAt hop = some address) (hbegan : b.clock ≤ s.clock)
    (hfree : underWay.length < lookupSlots) :
    Looking e stop hops b rest (e.ask s hop address).2 (calls ++ [callFor e s hop address]) done
      (underWay ++ [callFor e s hop address]) := by
  have hrest : targets b hops =
      (calls ++ [callFor e s hop address]).map Call.target ++ targets b rest := by
    rw [h.addressAt_eq] at haddress
    rw [h.rest, List.map_append, List.append_assoc]
    simp [targets, haddress, callFor, Call.target]
  constructor
  case toMidway =>
    refine h.toMidway.ask (c := callFor e s hop address) rfl hbegan ?_ hfree
    rw [hrest, List.map_append]
    exact List.prefix_append _ _
  case toQuestioned =>
    constructor
    case questions =>
      rw [List.map_append, List.reverse_append, List.append_assoc, ← h.questions]
      rfl
    case answers =>
      intro i c hi
      rcases Nat.lt_or_ge i calls.length with hlt | hge
      · rw [List.getElem?_append_left hlt] at hi
        rw [List.take_append_of_le_length (Nat.le_of_lt hlt)]
        exact h.answers i c hi
      · obtain rfl : i = calls.length := by
          have hlt := (List.getElem?_eq_some_iff.1 hi).1
          rw [List.length_append, List.length_singleton] at hlt
          omega
        obtain rfl : callFor e s hop address = c := by simpa using hi
        rw [List.take_left, ← h.questions]
        rfl
  case toOnlyHostnames => exact h.toOnlyHostnames.ask e hop address
  case rest => exact hrest
  case inTime => exact h.inTime
  case entered => exact ⟨h.entered.named, h.entered.others⟩

/-- Time passes until an answer comes in, or until the end. -/
theorem waitUntil (h : Looking e stop hops b waiting s calls done underWay) {t : Duration}
    (hle : s.clock ≤ t) (hlater : ∀ c ∈ underWay, ∀ f, c.finish = some f → t ≤ f)
    (hsome : underWay ≠ []) (hbusy : waiting = [] ∨ underWay.length = lookupSlots) :
    Looking e stop hops b waiting (s.waitUntil t) calls done underWay := by
  have hclock : (s.waitUntil t).clock = t := Nat.max_eq_right hle
  constructor
  case toMidway =>
    rw [hclock]
    refine h.toMidway.wait hle hlater hsome (hbusy.imp (fun hnone => ?_) id)
    rw [h.rest, hnone]
    exact (List.append_nil _).symm
  case toQuestioned => exact ⟨h.questions, h.answers⟩
  case toOnlyHostnames => exact h.toOnlyHostnames.waitUntil t
  case rest => exact h.rest
  case inTime => exact h.inTime
  case entered => exact ⟨h.entered.named, h.entered.others⟩

/-- A hop that is looked up has the address that is asked for. -/
theorem addressAt_of_mem (h : Looking e stop hops b waiting s calls done underWay)
    (hc : c ∈ calls) : b.ledger.addressAt c.hop = some c.address := by
  have hmem : c.target ∈ targets b hops := h.started.subset (List.mem_map_of_mem hc)
  obtain ⟨n, -, hn⟩ := List.mem_filterMap.1 hmem
  obtain ⟨address, haddress, heq⟩ := Option.map_eq_some_iff.1 hn
  obtain ⟨rfl, rfl⟩ := Prod.mk.inj heq
  exact haddress

/-- No hop is looked up twice. -/
theorem nodup_hop (h : Looking e stop hops b waiting s calls done underWay) (hnodup : hops.Nodup) :
    ((done ++ underWay).map Call.hop).Nodup := by
  have hcalls : (calls.map Call.hop).Sublist hops := by
    have hfst := h.started.sublist.map Prod.fst
    rw [List.map_map] at hfst
    exact hfst.trans (sublist_targets b hops)
  exact (h.parts.map Call.hop).nodup_iff.1 (hnodup.sublist hcalls)

/-- An answer that comes in now is in time, and the name is entered. -/
theorem answer {before after : List Call}
    (h : Looking e stop hops b waiting s calls done (before ++ c :: after)) (hnodup : hops.Nodup)
    (hc : c.finish = some s.clock) (hle : s.clock ≤ b.clock + e.config.timeout)
    (hafter : stop.isAfter s.clock = true) :
    Looking e stop hops b waiting (enterName c.lookup s) calls (c :: done) (before ++ after) := by
  have hmem : c ∈ calls := h.parts.mem_iff.2 (by simp)
  have hfresh : ∀ x ∈ done, x.hop ≠ c.hop := by
    have hdistinct := h.nodup_hop hnodup
    rw [List.map_append, List.nodup_append] at hdistinct
    intro x hx
    exact hdistinct.2.2 _ (List.mem_map_of_mem hx) _ (List.mem_map_of_mem (by simp))
  obtain ⟨hclock, hquestions⟩ := enterName_frame c.lookup s
  -- the hop is as it was at the beginning, since it has had no answer yet
  constructor
  case toMidway =>
    rw [hclock]
    exact h.toMidway.answer hc
  case toQuestioned => exact ⟨hquestions.trans h.questions, h.answers⟩
  case toOnlyHostnames => exact h.toOnlyHostnames.enterName _
  case rest => exact h.rest
  case inTime =>
    intro x hx
    rcases List.mem_cons.1 hx with rfl | hx
    · exact Call.inTime_iff.2 ⟨_, hc, hle, hafter⟩
    · exact h.inTime x hx
  case entered => exact h.entered.enterName hfresh (h.addressAt_of_mem hmem)

/-- **The end**, when no answer that is still awaited would be in time. -/
theorem lookedUp (h : Looking e stop hops b waiting s calls done underWay)
    (hbegan : b.clock ≤ s.clock)
    (hlate : ∀ c ∈ underWay, ¬ c.inTime stop (b.clock + e.config.timeout) = true)
    (hdeadline : s.clock ≤ b.clock + e.config.timeout)
    (htold : ∀ t, stop.instant = some t → s.clock ≤ t)
    (hend : AllAnswered (targets b hops) calls s.clock ∨
      s.clock = b.clock + e.config.timeout ∨ stop.instant = some s.clock) :
    LookedUp e stop hops b s calls := by
  have hmem : ∀ c, c ∈ calls.filter (Call.inTime stop (b.clock + e.config.timeout)) ↔ c ∈ done := by
    intro c
    rw [List.mem_filter, h.parts.mem_iff, List.mem_append]
    constructor
    · rintro ⟨hdone | hunder, hin⟩
      · exact hdone
      · exact absurd hin (hlate c hunder)
    · exact fun hdone => ⟨Or.inl hdone, h.inTime c hdone⟩
  constructor
  case toTimetable => exact h.toTimetable
  case toQuestioned => exact h.toQuestioned
  case toOnlyHostnames => exact h.toOnlyHostnames
  case ends =>
    refine ⟨⟨hbegan, hend⟩, fun t ht => ?_⟩
    obtain ⟨hle, hall | rfl | hstop⟩ := ht
    · exact Nat.le_of_not_lt fun hlt => h.needed t hle hlt hall
    · exact hdeadline
    · exact htold t hstop
  case entered =>
    constructor
    case named => exact fun c hc => h.entered.named c ((hmem c).1 hc)
    case others => exact fun n hn => h.entered.others n fun c hc => hn c ((hmem c).2 hc)

/-- Where no lookup can start, none waits or no slot is free. -/
theorem no_start (h : Looking e stop hops b waiting s calls done underWay)
    (hnone : nextStart waiting (underWay.map Call.lookup) = none) :
    waiting = [] ∨ underWay.length = lookupSlots := by
  refine (nextStart_eq_none hnone).imp id fun hfull => ?_
  rw [List.length_map] at hfull
  exact Nat.le_antisymm h.free hfull

/-- When none waits and none is under way, all answers are in. -/
theorem lookedUp_answered (h : Looking e stop hops b [] s calls done [])
    (hbegan : b.clock ≤ s.clock) (hdeadline : s.clock ≤ b.clock + e.config.timeout)
    (hafter : stop.isAfter s.clock = true) : LookedUp e stop hops b s calls := by
  have hall : AllAnswered (targets b hops) calls s.clock := by
    refine ⟨?_, fun c hc => ?_⟩
    · rw [h.rest]
      exact (List.append_nil _).symm
    · have hdone := h.parts.mem_iff.1 hc
      rw [List.append_nil] at hdone
      exact h.answered c hdone
  have htold : ∀ t, stop.instant = some t → s.clock ≤ t := fun t ht =>
    Nat.le_of_lt (Stop.isAfter_iff.1 hafter t ht)
  exact h.lookedUp hbegan (by simp) hdeadline htold (Or.inl hall)

/-- When no answer that is awaited would be in time, it ends with the time or at
the signal. -/
theorem lookedUp_cut (h : Looking e stop hops b waiting s calls done underWay)
    (hbegan : b.clock ≤ s.clock) (hdeadline : s.clock ≤ b.clock + e.config.timeout)
    (hafter : stop.isAfter s.clock = true) (hsome : underWay ≠ [])
    (hnone : nextStart waiting (underWay.map Call.lookup) = none)
    (hlate : ∀ c ∈ underWay, ∀ f, c.finish = some f →
      ¬ (f ≤ b.clock + e.config.timeout ∧ stop.isAfter f = true)) :
    LookedUp e stop hops b (s.waitUntil (stop.cut (b.clock + e.config.timeout))) calls := by
  have hle := Stop.le_cut hdeadline hafter
  have hclock : (s.waitUntil (stop.cut (b.clock + e.config.timeout))).clock =
      stop.cut (b.clock + e.config.timeout) := Nat.max_eq_right hle
  have hwaited := h.waitUntil hle (fun c hc f hf => Stop.cut_le (hlate c hc f hf)) hsome
    (h.no_start hnone)
  obtain ⟨hend, htold, heither⟩ := stop.cut_spec (b.clock + e.config.timeout)
  apply hwaited.lookedUp
  · rw [hclock]
    exact Nat.le_trans hbegan hle
  · intro c hc hin
    obtain ⟨f, hf, hin⟩ := Call.inTime_iff.1 hin
    exact hlate c hc f hf hin
  · rw [hclock]
    exact hend
  · rw [hclock]
    exact htold
  · rw [hclock]
    exact Or.inr heither

end Looking

/-- **Each time round the loop keeps to it**, until the end. -/
theorem Looking.lookUpFrom {active : List Lookup}
    (h : Looking e stop hops b waiting s calls done underWay) (hnodup : hops.Nodup)
    (hactive : active = underWay.map Call.lookup) (hbegan : b.clock ≤ s.clock)
    (hdeadline : s.clock ≤ b.clock + e.config.timeout) (hafter : stop.isAfter s.clock = true) :
    ∃ calls, LookedUp e stop hops b
      (e.lookUpFrom stop (b.clock + e.config.timeout) waiting active s) calls := by
  fun_induction Engine.lookUpFrom e stop (b.clock + e.config.timeout) waiting active s
    generalizing calls done underWay with
  | case1 waiting active s hop rest hn _ haddress ih =>
      obtain ⟨rfl, -⟩ := nextStart_eq_some hn
      exact ih (h.skip haddress) hactive hbegan hdeadline hafter
  | case2 waiting active s hop rest hn _ address haddress l s' hasked ih =>
      obtain ⟨rfl, hfree⟩ := nextStart_eq_some hn
      obtain ⟨rfl, rfl⟩ := Prod.mk.inj hasked
      rw [hactive, List.length_map] at hfree
      refine ih (h.ask haddress hbegan hfree) ?_ hbegan hdeadline hafter
      rw [hactive, List.map_append]
      rfl
  | case3 waiting s hn =>
      obtain rfl := List.map_eq_nil_iff.1 hactive.symm
      have hnone : waiting = [] := (h.no_start hn).resolve_right (by decide)
      subst hnone
      exact ⟨calls, h.lookedUp_answered hbegan hdeadline hafter⟩
  | case4 waiting active s hn hsome hnever =>
      subst hactive
      have hopen : underWay ≠ [] := fun hnil => hsome (hnil ▸ rfl)
      refine ⟨calls, h.lookedUp_cut hbegan hdeadline hafter hopen hn fun c hc f hf => ?_⟩
      have hnone := eq_none_of_firstAnswered hnever _ (List.mem_map_of_mem hc)
      cases hnone.symm.trans hf
  | case5 waiting active s hn hsome t l others hfirst _ hin ih =>
      subst hactive
      have hopen : underWay ≠ [] := fun hnil => hsome (hnil ▸ rfl)
      obtain ⟨⟨before, after, hsplit, rfl⟩, hfinish, hearliest⟩ := firstAnswered_spec hfirst
      obtain ⟨before, rest, rfl, rfl, hrest⟩ := List.map_eq_append_iff.1 hsplit
      obtain ⟨c, after, rfl, rfl, rfl⟩ := List.map_eq_cons_iff.1 hrest
      have hnow : s.clock ≤ t := h.unanswered c (by simp) t hfinish
      have hclock : (s.waitUntil t).clock = t := Nat.max_eq_right hnow
      have hwaited := h.waitUntil hnow
        (fun x hx f hf => hearliest _ (List.mem_map_of_mem hx) f hf) hopen (h.no_start hn)
      have hnext := hwaited.answer hnodup (by rw [hclock]; exact hfinish)
        (by rw [hclock]; exact hin.1) (by rw [hclock]; exact hin.2)
      have hsame : (enterName c.lookup (s.waitUntil t)).clock = t :=
        (enterName_frame _ _).1.trans hclock
      refine ih hnext List.map_append.symm ?_ ?_ ?_
      · rw [hsame]
        exact Nat.le_trans hbegan hnow
      · rw [hsame]
        exact hin.1
      · rw [hsame]
        exact hin.2
  | case6 waiting active s hn hsome t l others hfirst _ hin =>
      subst hactive
      have hopen : underWay ≠ [] := fun hnil => hsome (hnil ▸ rfl)
      obtain ⟨-, -, hearliest⟩ := firstAnswered_spec hfirst
      refine ⟨calls, h.lookedUp_cut hbegan hdeadline hafter hopen hn fun c hc f hf hf' => hin ?_⟩
      have hle := hearliest _ (List.mem_map_of_mem hc) f hf
      exact ⟨Nat.le_trans hle hf'.1, Stop.isAfter_anti hf'.2 hle⟩

/-- Who has not been told to stop has some time before the signal. -/
theorem Stop.isAfter_of_not_raised (h : stop.raised s = false) : stop.isAfter s.clock = true := by
  refine Stop.isAfter_iff.2 fun t ht => Nat.lt_of_not_le fun hle => ?_
  have hraised : stop.raised s = true :=
    (Stop.raised_eq stop s).trans (Stop.raisedAt_iff.2 (Or.inl ⟨t, ht, hle⟩))
  exact Bool.false_ne_true (h.symm.trans hraised)

theorem exists_lookedUp (e : Engine) (hgo : stop.raised s = false) (hnodup : hops.Nodup) :
    ∃ calls, LookedUp e stop hops s (e.lookUp stop hops s) calls := by
  have hafter := Stop.isAfter_of_not_raised hgo
  have hdeadline : s.clock ≤ s.clock + e.config.timeout := Nat.le_add_right _ _
  by_cases hnone : hops = []
  · subst hnone
    rw [lookUp, if_pos (Or.inl rfl)]
    exact ⟨[], (Looking.start e stop [] s).lookedUp_answered (Nat.le_refl _) hdeadline hafter⟩
  · rw [lookUp, if_neg (by simp [hnone, hgo])]
    exact (Looking.start e stop hops s).lookUpFrom hnodup rfl (Nat.le_refl _) hdeadline hafter

/-- **How names are looked up**, for some hops of which none is listed twice.  An
engine that has been told to stop asks nothing.  Otherwise the hops with an
address have their lookups in order, one each, in `lookupSlots` slots of which
none is left free while a hop waits.  It ends when all answers are in, with the
time or at the signal.  The names answered by then are entered, each for its
hop, and nothing else is changed. -/
theorem lookups_in_order (e : Engine) (stop : Stop) (s : State) {hops : List Nat}
    (hnodup : hops.Nodup) :
    (stop.raised s = true → e.lookUp stop hops s = s) ∧
      (stop.raised s = false →
        ∃ calls, LookedUp e stop hops s (e.lookUp stop hops s) calls) :=
  ⟨fun hraised => if_pos (Or.inr hraised), fun hgo => exists_lookedUp e hgo hnodup⟩

/-- A path of twelve hops and a name service that takes 100 milliseconds for the
first, 100 more for each further one, but 50 for the eleventh, and never answers
for the last. -/
def slowlyNamed : Engine :=
  { trial 12 0 [] with
    names := ⟨fun host => .error host, fun _ _ ip =>
      if ip.d = 12 then ⟨none, none⟩
      else if ip.d = 11 then ⟨some (50 * Duration.millisecond), some "eleventh"⟩
      else ⟨some (ip.d.toNat * 100 * Duration.millisecond), some "timely"⟩⟩ }

/-- A state in which all of these hops have answered. -/
def allHeard : State :=
  let s := slowlyNamed.start [] []
  { s with ledger := s.ledger.updateAll fun h =>
      { h with address := some ⟨192, 168, 1, UInt8.ofNat h.number⟩ } }

/-- The first answer gives its slot to the eleventh hop, and that one to the
twelfth.  At the signal there are three names; the answer for the third hop,
which comes in with the signal, does not count. -/
theorem looked_up_until_third_answer :
    let stop : Stop := { instant := some (300 * Duration.millisecond) }
    let s := slowlyNamed.lookUp stop (List.range' 1 12) allHeard
    (List.range' 1 12).Nodup ∧ stop.raised allHeard = false ∧
      (∃ calls, LookedUp slowlyNamed stop (List.range' 1 12) allHeard s calls) ∧
      s.clock = 300 * Duration.millisecond ∧
      s.questions.reverse.map (fun q => q.instant / Duration.millisecond) =
        [0, 0, 0, 0, 0, 0, 0, 0, 0, 0, 100, 150] ∧
      s.ledger.hops.filterMap (fun h => h.hostname.map fun name => (h.number, name)) =
        [(1, "timely"), (2, "timely"), (11, "eleventh")] := by
  intro stop s
  have hnodup : (List.range' 1 12).Nodup := List.nodup_range'
  have hgo : stop.raised allHeard = false := by decide +kernel
  exact ⟨hnodup, hgo, (lookups_in_order slowlyNamed stop allHeard hnodup).2 hgo,
    by decide +kernel⟩

end PathMeter.Engine
