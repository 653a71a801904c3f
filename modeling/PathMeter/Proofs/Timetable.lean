import PathMeter.Engine.Lookup

/-!
# Lookups in a limited number of slots

Some targets wait in a row, and a target's lookup may start when fewer than
`lookupSlots` are outstanding.  `Timetable` says what that makes of the lookups
that are started: they follow the row, they never take more than the slots,
and while targets wait no slot is free.

While the lookups go on, those started are of two kinds: those answered by now
and those that are not answered before now (`Midway`).  Three things happen to
them.  One more is started, time passes until some are answered, or one that is
answered now gives its slot back.
-/

namespace PathMeter.Engine

/-- A lookup that was started: for which hop, of which address and when, and the
answer that it gets. -/
structure Call where
  hop : Nat
  address : IPv4
  instant : Duration
  answer : NameAnswer
  deriving DecidableEq, Repr

namespace Call

variable {c : Call} {t later : Duration}

/-- What is looked up. -/
def target (c : Call) : Nat × IPv4 :=
  (c.hop, c.address)

/-- The question as the name service gets it. -/
def asked (c : Call) : Asked :=
  ⟨c.instant, .name c.address⟩

/-- The instant of the answer, unless it never comes. -/
def finish (c : Call) : Option Duration :=
  c.answer.delay.map (c.instant + ·)

/-- The lookup while it is under way. -/
def lookup (c : Call) : Lookup :=
  ⟨c.hop, c.address, c.finish, c.answer.name⟩

/-- Whether the answer has come in by an instant. -/
def isAnswered (t : Duration) (c : Call) : Bool :=
  c.finish.any fun f => decide (f ≤ t)

/-- Whether the lookup has started by an instant and is not answered by then. -/
def isOutstanding (t : Duration) (c : Call) : Bool :=
  decide (c.instant ≤ t) && !c.isAnswered t

theorem isAnswered_iff : c.isAnswered t = true ↔ ∃ f, c.finish = some f ∧ f ≤ t := by
  simp only [isAnswered, Option.any_eq_true, decide_eq_true_eq]

theorem isOutstanding_iff :
    c.isOutstanding t = true ↔ c.instant ≤ t ∧ ∀ f, c.finish = some f → t < f := by
  have hanswered : c.isAnswered t = false ↔ ∀ f, c.finish = some f → t < f := by
    rw [Bool.eq_false_iff, Ne, isAnswered_iff, not_exists]
    exact forall_congr' fun f => by rw [not_and, Nat.not_le]
  rw [isOutstanding, Bool.and_eq_true, decide_eq_true_eq, Bool.not_eq_true', hanswered]

theorem isAnswered_mono (h : c.isAnswered t = true) (hle : t ≤ later) :
    c.isAnswered later = true := by
  obtain ⟨f, hf, hft⟩ := isAnswered_iff.1 h
  exact isAnswered_iff.2 ⟨f, hf, Nat.le_trans hft hle⟩

theorem instant_le_of_isAnswered (h : c.isAnswered t = true) : c.instant ≤ t := by
  obtain ⟨f, hf, hft⟩ := isAnswered_iff.1 h
  obtain ⟨d, -, rfl⟩ := Option.map_eq_some_iff.1 hf
  exact Nat.le_trans (Nat.le_add_right _ _) hft

theorem isOutstanding_eq_false (h : c.isAnswered t = true) : c.isOutstanding t = false := by
  rw [isOutstanding, h, Bool.not_true, Bool.and_false]

end Call

/-- All targets have had their lookup, and every answer has come in by an
instant. -/
def AllAnswered (targets : List (Nat × IPv4)) (calls : List Call) (t : Duration) : Prop :=
  calls.map Call.target = targets ∧ ∀ c ∈ calls, c.isAnswered t = true

/-- All targets have had their lookup started by an instant. -/
def AllStarted (targets : List (Nat × IPv4)) (calls : List Call) (t : Duration) : Prop :=
  calls.map Call.target = targets ∧ ∀ c ∈ calls, c.instant ≤ t

/-- The lookups that were started from an instant `began` until `now`, in order. -/
structure Timetable (began : Duration) (targets : List (Nat × IPv4)) (now : Duration)
    (calls : List Call) : Prop where
  /-- The targets have their lookups in order, one each. -/
  started : calls.map Call.target <+: targets
  inOrder : calls.Pairwise fun earlier later => earlier.instant ≤ later.instant
  within : ∀ c ∈ calls, began ≤ c.instant ∧ c.instant ≤ now
  slots : ∀ t, calls.countP (Call.isOutstanding t) ≤ lookupSlots
  /-- As long as a target waits no slot is free. -/
  busy : ∀ t, began ≤ t → t < now →
    AllStarted targets calls t ∨ calls.countP (Call.isOutstanding t) = lookupSlots
  /-- It does not go on when all is answered. -/
  needed : ∀ t, began ≤ t → t < now → ¬ AllAnswered targets calls t

theorem Timetable.start (began : Duration) (targets : List (Nat × IPv4)) :
    Timetable began targets began [] where
  started := List.nil_prefix
  inOrder := List.Pairwise.nil
  within := by simp
  slots := fun _ => Nat.zero_le _
  busy := fun _ hle hlt => absurd hle (Nat.not_le_of_lt hlt)
  needed := fun _ hle hlt => absurd hle (Nat.not_le_of_lt hlt)

/-- Lookups that go on: some are answered by now, the others are not answered
before now. -/
structure Midway (began : Duration) (targets : List (Nat × IPv4)) (now : Duration)
    (calls done underWay : List Call) : Prop extends Timetable began targets now calls where
  parts : calls.Perm (done ++ underWay)
  answered : ∀ c ∈ done, c.isAnswered now = true
  unanswered : ∀ c ∈ underWay, ∀ f, c.finish = some f → now ≤ f
  free : underWay.length ≤ lookupSlots

namespace Midway

variable {began now later t : Duration} {targets : List (Nat × IPv4)}
  {calls done underWay before after : List Call} {c : Call}

theorem start (began : Duration) (targets : List (Nat × IPv4)) :
    Midway began targets began [] [] [] :=
  ⟨.start began targets, .refl _, by simp, by simp, Nat.zero_le _⟩

/-- From now on only those under way can be outstanding. -/
theorem countP_isOutstanding (h : Midway began targets now calls done underWay) (ht : now ≤ t) :
    calls.countP (Call.isOutstanding t) = underWay.countP (Call.isOutstanding t) := by
  have hdone : done.countP (Call.isOutstanding t) = 0 := by
    refine List.countP_eq_zero.2 fun c hc => Bool.eq_false_iff.1 ?_
    exact Call.isOutstanding_eq_false (Call.isAnswered_mono (h.answered c hc) ht)
  rw [h.parts.countP_eq, List.countP_append, hdone, Nat.zero_add]

/-- **One more is started**, for the next target in the row. -/
theorem ask (h : Midway began targets now calls done underWay) (hinstant : c.instant = now)
    (hbegan : began ≤ now) (hnext : calls.map Call.target ++ [c.target] <+: targets)
    (hfree : underWay.length < lookupSlots) :
    Midway began targets now (calls ++ [c]) done (underWay ++ [c]) := by
  have hwaits : calls.map Call.target ≠ targets := by
    intro heq
    have hlength := hnext.length_le
    rw [← heq, List.length_append, List.length_singleton] at hlength
    exact Nat.not_succ_le_self _ hlength
  have hlate : ∀ {t}, t < now → c.isOutstanding t = false := by
    intro t ht
    refine Bool.eq_false_iff.2 fun hout => ?_
    exact Nat.not_le_of_lt ht (hinstant ▸ (Call.isOutstanding_iff.1 hout).1)
  have hcount : ∀ {t}, t < now →
      (calls ++ [c]).countP (Call.isOutstanding t) = calls.countP (Call.isOutstanding t) := by
    intro t ht
    rw [List.countP_append, List.countP_singleton, hlate ht]
    rfl
  constructor
  case toTimetable =>
    constructor
    case started => rwa [List.map_append, List.map_singleton]
    case inOrder =>
      refine List.pairwise_append.2 ⟨h.inOrder, List.pairwise_singleton _ _, ?_⟩
      intro a ha b hb
      rw [List.mem_singleton.1 hb, hinstant]
      exact (h.within a ha).2
    case within =>
      intro a ha
      rcases List.mem_append.1 ha with ha | ha
      · exact h.within a ha
      · rw [List.mem_singleton.1 ha, hinstant]
        exact ⟨hbegan, Nat.le_refl _⟩
    case slots =>
      intro t
      rcases Nat.lt_or_ge t now with ht | ht
      · rw [hcount ht]
        exact h.slots t
      · -- only the slots in use count, and there was one left
        rw [List.countP_append, h.countP_isOutstanding ht, ← List.countP_append]
        refine Nat.le_trans List.countP_le_length ?_
        rw [List.length_append, List.length_singleton]
        exact hfree
    case busy =>
      intro t hbegan ht
      rw [hcount ht]
      exact (h.busy t hbegan ht).imp (fun hall => absurd hall.1 hwaits) id
    case needed =>
      rintro t - ht ⟨-, hall⟩
      have hc := Call.instant_le_of_isAnswered (hall c (by simp))
      exact Nat.not_le_of_lt ht (hinstant ▸ hc)
  case parts =>
    rw [← List.append_assoc]
    exact h.parts.append_right [c]
  case answered => exact h.answered
  case unanswered =>
    intro a ha f hf
    rcases List.mem_append.1 ha with ha | ha
    · exact h.unanswered a ha f hf
    · obtain rfl := List.mem_singleton.1 ha
      obtain ⟨d, -, rfl⟩ := Option.map_eq_some_iff.1 hf
      rw [← hinstant]
      exact Nat.le_add_right _ _
  case free =>
    rw [List.length_append, List.length_singleton]
    exact hfree

/-- **Time passes** while all of those under way stay unanswered, and no target
can be started. -/
theorem wait (h : Midway began targets now calls done underWay) (hle : now ≤ later)
    (hlater : ∀ c ∈ underWay, ∀ f, c.finish = some f → later ≤ f) (hsome : underWay ≠ [])
    (hbusy : calls.map Call.target = targets ∨ underWay.length = lookupSlots) :
    Midway began targets later calls done underWay := by
  have hopen : ∀ c ∈ underWay, ∀ t, now ≤ t → t < later → c.isOutstanding t = true := by
    intro c hc t hnow ht
    have hmem : c ∈ calls := h.parts.mem_iff.2 (List.mem_append_right _ hc)
    refine Call.isOutstanding_iff.2 ⟨Nat.le_trans (h.within c hmem).2 hnow, fun f hf => ?_⟩
    exact Nat.lt_of_lt_of_le ht (hlater c hc f hf)
  constructor
  case toTimetable =>
    constructor
    case started => exact h.started
    case inOrder => exact h.inOrder
    case within => exact fun c hc => ⟨(h.within c hc).1, Nat.le_trans (h.within c hc).2 hle⟩
    case slots => exact h.slots
    case busy =>
      intro t hbegan ht
      -- from now on all of those under way are outstanding, until the first is answered
      rcases Nat.lt_or_ge t now with hearly | hnow
      · exact h.busy t hbegan hearly
      · refine hbusy.imp (fun hall => ⟨hall, fun c hc => ?_⟩) fun hfull => ?_
        · exact Nat.le_trans (h.within c hc).2 hnow
        · rw [h.countP_isOutstanding hnow, ← hfull]
          exact List.countP_eq_length.2 fun c hc => hopen c hc t hnow ht
    case needed =>
      rintro t hbegan ht ⟨htargets, hall⟩
      rcases Nat.lt_or_ge t now with hearly | hnow
      · exact h.needed t hbegan hearly ⟨htargets, hall⟩
      · obtain ⟨c, hc⟩ := List.exists_mem_of_ne_nil _ hsome
        have hmem : c ∈ calls := h.parts.mem_iff.2 (List.mem_append_right _ hc)
        have hclosed := Call.isOutstanding_eq_false (hall c hmem)
        exact Bool.eq_false_iff.1 hclosed (hopen c hc t hnow ht)
  case parts => exact h.parts
  case answered => exact fun c hc => Call.isAnswered_mono (h.answered c hc) hle
  case unanswered => exact hlater
  case free => exact h.free

/-- **One that is answered now** gives its slot back. -/
theorem answer (h : Midway began targets now calls done (before ++ c :: after))
    (hc : c.finish = some now) :
    Midway began targets now calls (c :: done) (before ++ after) := by
  have hless : ∀ x ∈ before ++ after, x ∈ before ++ c :: after := by
    intro x hx
    rcases List.mem_append.1 hx with hx | hx
    · exact List.mem_append_left _ hx
    · exact List.mem_append_right _ (List.mem_cons_of_mem _ hx)
  constructor
  case toTimetable => exact h.toTimetable
  case parts =>
    have hmove : (done ++ (before ++ c :: after)).Perm (c :: done ++ (before ++ after)) := by
      rw [← List.append_assoc, List.cons_append, ← List.append_assoc]
      exact List.perm_middle
    exact h.parts.trans hmove
  case answered =>
    intro x hx
    rcases List.mem_cons.1 hx with rfl | hx
    · exact Call.isAnswered_iff.2 ⟨now, hc, Nat.le_refl _⟩
    · exact h.answered x hx
  case unanswered => exact fun x hx => h.unanswered x (hless x hx)
  case free =>
    have hfree := h.free
    rw [List.length_append, List.length_cons] at hfree
    rw [List.length_append]
    exact Nat.le_of_succ_le hfree

end Midway

/-! ### Which comes next -/

theorem eq_none_of_firstAnswered {ls : List Lookup} (h : firstAnswered ls = none) :
    ∀ x ∈ ls, x.finish = none := by
  induction ls with
  | nil => simp
  | cons y rest ih =>
      rw [firstAnswered] at h
      split at h
      · next hy hrest =>
        intro x hx
        rcases List.mem_cons.1 hx with rfl | hx
        · exact hy
        · exact ih hrest x hx
      · cases h
      · cases h
      · split at h <;> cases h

/-- The lookup answered first is taken from among those under way, and none of
them is answered earlier. -/
theorem firstAnswered_spec {ls others : List Lookup} {t : Duration} {l : Lookup}
    (h : firstAnswered ls = some (t, l, others)) :
    (∃ before after, ls = before ++ l :: after ∧ others = before ++ after) ∧
      l.finish = some t ∧ ∀ x ∈ ls, ∀ f, x.finish = some f → t ≤ f := by
  induction ls generalizing t l others with
  | nil => simp [firstAnswered] at h
  | cons y rest ih =>
      have hlater : ∀ {t l others}, firstAnswered rest = some (t, l, others) →
          (∀ f, y.finish = some f → t ≤ f) →
          (∃ before after, y :: rest = before ++ l :: after ∧ y :: others = before ++ after) ∧
            l.finish = some t ∧ ∀ x ∈ y :: rest, ∀ f, x.finish = some f → t ≤ f := by
        intro t l others hrest hy
        obtain ⟨⟨before, after, rfl, rfl⟩, hfinish, hfirst⟩ := ih hrest
        refine ⟨⟨y :: before, after, rfl, rfl⟩, hfinish, fun x hx => ?_⟩
        rcases List.mem_cons.1 hx with rfl | hx
        · exact hy
        · exact hfirst x hx
      have hnow : ∀ {f}, y.finish = some f → (∀ x ∈ rest, ∀ f', x.finish = some f' → f ≤ f') →
          (∃ before after, y :: rest = before ++ y :: after ∧ rest = before ++ after) ∧
            y.finish = some f ∧ ∀ x ∈ y :: rest, ∀ f', x.finish = some f' → f ≤ f' := by
        intro f hy hrest
        refine ⟨⟨[], rest, rfl, rfl⟩, hy, fun x hx f' hf' => ?_⟩
        rcases List.mem_cons.1 hx with rfl | hx
        · exact Nat.le_of_eq (Option.some.inj (hy.symm.trans hf'))
        · exact hrest x hx f' hf'
      rw [firstAnswered] at h
      split at h
      · simp at h
      · next hy hrest =>
        obtain ⟨rfl, rfl, rfl⟩ := by simpa using h
        exact hlater hrest fun f hf => by simp [hy] at hf
      · next f hy hrest =>
        obtain ⟨rfl, rfl, rfl⟩ := by simpa using h
        exact hnow hy fun x hx f' hf' => by
          simp [eq_none_of_firstAnswered hrest x hx] at hf'
      · next f t' first' others' hy hrest =>
        split at h
        · next hle =>
          obtain ⟨rfl, rfl, rfl⟩ := by simpa using h
          exact hnow hy fun x hx f' hf' => Nat.le_trans hle ((ih hrest).2.2 x hx f' hf')
        · next hlt =>
          obtain ⟨rfl, rfl, rfl⟩ := by simpa using h
          refine hlater hrest fun f' hf' => ?_
          obtain rfl := Option.some.inj (hy.symm.trans hf')
          exact Nat.le_of_not_le hlt

/-- A lookup starts only where a slot is free. -/
theorem nextStart_eq_some {waiting : List Nat} {active : List Lookup} {hop : Nat} {rest : List Nat}
    (h : nextStart waiting active = some (hop, rest)) :
    waiting = hop :: rest ∧ active.length < lookupSlots := by
  refine ⟨eq_cons_of_nextStart h, ?_⟩
  unfold nextStart at h
  split at h
  · split at h
    · assumption
    · cases h
  · cases h

theorem nextStart_eq_none {waiting : List Nat} {active : List Lookup}
    (h : nextStart waiting active = none) :
    waiting = [] ∨ lookupSlots ≤ active.length := by
  unfold nextStart at h
  split at h
  · split at h
    · cases h
    · next hfull => exact Or.inr (Nat.le_of_not_lt hfull)
  · exact Or.inl rfl

end PathMeter.Engine
