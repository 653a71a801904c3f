import PathMeter.Engine.State

/-!
# Looking up names

The hops with a new responder are looked up in order, ten at a time: whenever
fewer are under way the next one starts.  All of it ends when every lookup is
finished, when the time is up, or when the engine is told to stop.  What was
answered by then is kept; an answer at the last instant of the time still
counts, one at the instant of stopping does not.
-/

namespace PathMeter.Engine

/-- How many lookups may be under way at once. -/
def lookupSlots : Nat := 10

/-- A lookup under way. -/
structure Lookup where
  hop : Nat
  address : IPv4
  /-- The instant of the answer, unless it never comes. -/
  finish : Option Duration
  name : Option String
  deriving DecidableEq, Repr

/-- The lookup that is answered first, of several the one that started first,
with its instant and the others; there may be none that is ever answered. -/
def firstAnswered : List Lookup → Option (Duration × Lookup × List Lookup)
  | [] => none
  | l :: rest =>
    match l.finish, firstAnswered rest with
    | none, none => none
    | none, some (t, first, others) => some (t, first, l :: others)
    | some f, none => some (f, l, rest)
    | some f, some (t, first, others) =>
      if f ≤ t then some (f, l, rest) else some (t, first, l :: others)

/-- Whether an instant comes before the one at which the engine is told to
stop. -/
def Stop.isAfter (stop : Stop) (t : Duration) : Bool :=
  stop.instant.all fun c => decide (t < c)

/-- The last instant of lookups that are not all answered. -/
def Stop.cut (stop : Stop) (deadline : Duration) : Duration :=
  match stop.instant with
  | some c => min c deadline
  | none => deadline

/-- Enters the answer of a lookup, unless the hop has moved on. -/
def enterName (l : Lookup) (s : State) : State :=
  match l.name with
  | none => s
  | some name =>
    s.record (s.ledger.updateHop l.hop fun h =>
      if h.address = some l.address then h.rename (some name) else h)

/-- What holds of the state where a lookup has no name to tell, and with the name
entered where it has one, holds once its answer is entered. -/
@[elab_as_elim]
theorem enterName_cases {P : State → Prop} {l : Lookup} {s : State}
    (hnone : l.name = none → P s)
    (hsome : ∀ name, l.name = some name → P (s.record (s.ledger.updateHop l.hop fun h =>
      if h.address = some l.address then h.rename (some name) else h))) : P (enterName l s) := by
  unfold enterName
  split
  · next hname => exact hnone hname
  · next name hname => exact hsome name hname

/-- Starts the lookup of an address for a hop: the lookup, and the state with
the question noted. -/
def ask (e : Engine) (s : State) (hop : Nat) (address : IPv4) : Lookup × State :=
  let answer := e.names.name s.questions s.clock address
  (⟨hop, address, answer.delay.map (s.clock + ·), answer.name⟩,
    { s with questions := ⟨s.clock, .name address⟩ :: s.questions })

/-- The hop whose lookup starts next, with the hops behind it, if one waits and
a slot is free. -/
def nextStart (waiting : List Nat) (active : List Lookup) : Option (Nat × List Nat) :=
  match waiting with
  | hop :: rest => if active.length < lookupSlots then some (hop, rest) else none
  | [] => none

theorem length_firstAnswered {ls : List Lookup} {t : Duration} {l : Lookup}
    {others : List Lookup} (h : firstAnswered ls = some (t, l, others)) :
    others.length + 1 = ls.length := by
  induction ls generalizing t l others with
  | nil => simp [firstAnswered] at h
  | cons x rest ih =>
    rw [firstAnswered] at h
    split at h
    · simp at h
    · next hr =>
      simp only [Option.some.injEq, Prod.mk.injEq] at h
      have := ih hr
      simp only [← h.2.2, List.length_cons]
      omega
    · simp only [Option.some.injEq, Prod.mk.injEq] at h
      simp [← h.2.2]
    · next hr =>
      have := ih hr
      split at h <;> simp only [Option.some.injEq, Prod.mk.injEq] at h
      · simp [← h.2.2]
      · simp only [← h.2.2, List.length_cons]
        omega

theorem eq_cons_of_nextStart {waiting rest : List Nat} {active : List Lookup} {hop : Nat}
    (h : nextStart waiting active = some (hop, rest)) : waiting = hop :: rest := by
  unfold nextStart at h
  split at h
  · split at h <;> simp_all
  · simp at h

/-- Looks up hops until the deadline, where some lookups are under way: starts
the next one while a slot is free, else waits for the first answer. -/
def lookUpFrom (e : Engine) (stop : Stop) (deadline : Duration)
    (waiting : List Nat) (active : List Lookup) (s : State) : State :=
  match hn : nextStart waiting active with
  | some (hop, rest) =>
    have : waiting.length = rest.length + 1 := by rw [eq_cons_of_nextStart hn]; rfl
    match (s.ledger.hop? hop).bind (·.address) with
    | none => lookUpFrom e stop deadline rest active s
    | some address =>
      let (l, s) := e.ask s hop address
      lookUpFrom e stop deadline rest (active ++ [l]) s
  | none =>
    if active = [] then s
    else
      match ha : firstAnswered active with
      | none => s.waitUntil (stop.cut deadline)
      | some (t, l, others) =>
        have : others.length + 1 = active.length := length_firstAnswered ha
        if t ≤ deadline ∧ stop.isAfter t then
          lookUpFrom e stop deadline waiting others (enterName l (s.waitUntil t))
        else s.waitUntil (stop.cut deadline)
termination_by 2 * waiting.length + active.length
decreasing_by all_goals simp_all <;> omega

/-- Looks up the hops with a new responder; nothing is asked when there are
none, or when the engine has been told to stop already. -/
def lookUp (e : Engine) (stop : Stop) (hops : List Nat) (s : State) : State :=
  if hops = [] ∨ stop.raised s then s
  else lookUpFrom e stop (s.clock + e.config.timeout) hops [] s

end PathMeter.Engine
