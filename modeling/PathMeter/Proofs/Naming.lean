import PathMeter.Export.Csv
import PathMeter.Export.Report
import PathMeter.Proofs.Timeline
import PathMeter.Proofs.Timetable

/-!
# Whose name a hop has

Names come in late.  A lookup is started for the address that a hop has when
listening ends, it may be answered after others that started later, or never,
and by the next cycle the hop may have another address.  This file says that
the name of a hop is all the same the name of the address that it has.

The argument is a credit for every name (`Credit`): the question that was asked
for it, the answer, and that the hop had the address when the lookups of that
cycle began and has had it at every moment since.  No entry but a name makes a
name, and the reply of another responder takes the name away, so credits last
through probes, replies and figures (`Named.keep`).  While names are looked up
no address changes, so an answer that comes in is a credit (`Naming.credit`).

With the address always there, everything that shows a hop shows it alike
(`names_up_to_date`).
-/

namespace PathMeter.Hop

/-- A change of a hop that gives it no name, and leaves it none with another
address. -/
def NamesNothing (f : Hop → Hop) : Prop :=
  ∀ h name, (f h).hostname = some name → h.hostname = some name ∧ h.address = (f h).address

/-- The reply of another responder leaves no name behind. -/
theorem namesNothing_recordReply (ip : IPv4) (d : Duration) :
    NamesNothing fun h => h.recordReply ip d := by
  intro h name hname
  dsimp only at hname ⊢
  unfold recordReply at hname ⊢
  split at hname
  · next hexpects =>
    rw [if_pos hexpects]
    by_cases haddress : h.address = some ip
    · simp only [haddress, if_true] at hname
      exact ⟨hname, haddress⟩
    · simp [haddress] at hname
  · next hexpects =>
    rw [if_neg hexpects]
    exact ⟨hname, rfl⟩

end PathMeter.Hop

namespace PathMeter.Ledger

/-- The address of the hop at a position. -/
def addressAt (l : Ledger) (n : Nat) : Option IPv4 :=
  (l.hop? n).bind (·.address)

/-- An entry that changes no address. -/
theorem addressAt_updateHop {f : Hop → Hop} (hf : ∀ h, (f h).address = h.address) (l : Ledger)
    (m n : Nat) : (l.updateHop m f).addressAt n = l.addressAt n := by
  have hjoin : ∀ l : Ledger, l.addressAt n = ((l.hop? n).map (·.address)).join := by
    intro l
    cases h : l.hop? n <;> simp [addressAt, h]
  have haddress : ((l.updateHop m f).hop? n).map (·.address) = (l.hop? n).map (·.address) :=
    map_hop?_updateHop hf ..
  rw [hjoin, hjoin, haddress]

/-- A name that is entered changes no address. -/
theorem addressAt_updateHop_rename (l : Ledger) (m n : Nat) (ip : IPv4) (name : String) :
    (l.updateHop m fun h => if h.address = some ip then h.rename (some name) else h).addressAt n =
      l.addressAt n := by
  refine addressAt_updateHop ?_ l m n
  intro h
  split <;> rfl

/-- A later ledger has no names that are not in an earlier one, and where a name
is left the address is the same. -/
def KeepsNames (l l' : Ledger) : Prop :=
  ∀ n h', l'.hop? n = some h' → ∀ name, h'.hostname = some name →
    ∃ h, l.hop? n = some h ∧ h.hostname = some name ∧ h.address = h'.address

theorem KeepsNames.updateHop {f : Hop → Hop} (hf : Hop.NamesNothing f) (l : Ledger) (m : Nat) :
    l.KeepsNames (l.updateHop m f) := by
  intro n h' hh' name hname
  by_cases hn : n = m
  · subst hn
    rw [hop?_updateHop_self] at hh'
    obtain ⟨h, hh, rfl⟩ := Option.map_eq_some_iff.1 hh'
    exact ⟨h, hh, hf h name hname⟩
  · rw [hop?_updateHop_of_ne f hn] at hh'
    exact ⟨h', hh', hname, rfl⟩

theorem KeepsNames.finalize (l : Ledger) : l.KeepsNames l.finalize := by
  intro n h' hh' name hname
  rw [Ledger.finalize, hop?_updateAll] at hh'
  obtain ⟨h, hh, rfl⟩ := Option.map_eq_some_iff.1 hh'
  exact ⟨h, hh, hname, rfl⟩

/-- What is not about hops is not about names. -/
theorem KeepsNames.of_hops {l l' : Ledger} (h : l'.hops = l.hops) : l.KeepsNames l' := by
  intro n g hg name hname
  have hsame : l'.hop? n = l.hop? n := by rw [hop?, hop?, h]
  exact ⟨g, hsame ▸ hg, hname, rfl⟩

end PathMeter.Ledger

namespace PathMeter.Engine

variable {e : Engine} {stop : Stop} {waiting : List Arrival} {asked : List String}

/-! ### Credits -/

/-- A state in which a cycle has done listening and lookups may begin. -/
def DoneListening (e : Engine) (waiting : List Arrival) (asked : List String) (q : State) :
    Prop :=
  ∃ s stop, Reachable e waiting asked s ∧ stop.raised s = false ∧
    (e.passOf stop s).isComplete = true ∧ q = (e.heardIn stop s).state

/-- A question for the name of an address that was asked at an instant, after
listening had ended in a state `q`. -/
structure AskedSince (q : State) (questions : List Asked) (t : Duration) (address : IPv4)
    (older : List Asked) : Prop where
  isLater : q.clock ≤ t
  asked : ∃ newer between, questions = newer ++ ⟨t, .name address⟩ :: older ∧
    older = between ++ q.questions

/-- What a name of a hop rests on at an instant `now`, when the moments logged are
`log`: in some cycle whose listening ended in a state `q` the name service was
asked, and it has answered with the name; the hop had the address before that
and has had it ever since. -/
structure Credit (e : Engine) (waiting : List Arrival) (asked : List String)
    (questions : List Asked) (log : List Moment) (now : Duration) (n : Nat) (address : IPv4)
    (name : String) (q : State) (t : Duration) (older : List Asked) : Prop where
  isWanted : e.config.resolveNames = true
  begins : DoneListening e waiting asked q
  question : AskedSince q questions t address older
  answer : ∃ delay, e.names.name older t address = ⟨some delay, some name⟩ ∧ t + delay ≤ now
  before : q.ledger.addressAt n = some address
  since : ∃ since, log = since ++ q.timeline ∧
    ∀ m ∈ since, m.ledger.addressAt n = some address

/-- Every name in a ledger has its credit. -/
def Credited (e : Engine) (waiting : List Arrival) (asked : List String)
    (questions : List Asked) (log : List Moment) (now : Duration) (l : Ledger) : Prop :=
  ∀ n h, l.hop? n = some h → ∀ name, h.hostname = some name →
    ∃ address q t older, h.address = some address ∧
      Credit e waiting asked questions log now n address name q t older

section Credit

variable {questions older : List Asked} {log : List Moment} {now t : Duration} {n : Nat}
  {address : IPv4} {name : String} {q : State}

theorem AskedSince.ask (h : AskedSince q questions t address older) (a : Asked) :
    AskedSince q (a :: questions) t address older := by
  obtain ⟨newer, between, hquestions, hbetween⟩ := h.asked
  exact ⟨h.isLater, a :: newer, between, congrArg _ hquestions, hbetween⟩

theorem Credited.ask {l : Ledger} (h : Credited e waiting asked questions log now l)
    (a : Asked) : Credited e waiting asked (a :: questions) log now l := by
  intro n g hg name hname
  obtain ⟨address, q, t, older, haddress, hc⟩ := h n g hg name hname
  exact ⟨address, q, t, older, haddress, hc.isWanted, hc.begins, hc.question.ask a, hc.answer,
    hc.before, hc.since⟩

theorem Credited.mono {l : Ledger} (h : Credited e waiting asked questions log now l)
    {later : Duration} (hle : now ≤ later) : Credited e waiting asked questions log later l := by
  intro n g hg name hname
  obtain ⟨address, q, t, older, haddress, hc⟩ := h n g hg name hname
  obtain ⟨delay, hanswer, hin⟩ := hc.answer
  exact ⟨address, q, t, older, haddress, hc.isWanted, hc.begins, hc.question,
    ⟨delay, hanswer, Nat.le_trans hin hle⟩, hc.before, hc.since⟩

/-- A credit lasts while the hop has its address. -/
theorem Credit.extend (h : Credit e waiting asked questions log now n address name q t older)
    {m : Moment} (hm : m.ledger.addressAt n = some address) :
    Credit e waiting asked questions (m :: log) now n address name q t older := by
  obtain ⟨since, hlog, hkept⟩ := h.since
  refine ⟨h.isWanted, h.begins, h.question, h.answer, h.before, m :: since,
    congrArg _ hlog, ?_⟩
  intro m' hm'
  rcases List.mem_cons.1 hm' with rfl | hm'
  · exact hm
  · exact hkept m' hm'

end Credit

/-- A state in which every name has its credit, now and at every moment so far. -/
structure Named (e : Engine) (waiting : List Arrival) (asked : List String) (s : State) :
    Prop where
  now : Credited e waiting asked s.questions s.timeline s.clock s.ledger
  log : ∀ later m earlier, s.timeline = later ++ m :: earlier →
    Credited e waiting asked s.questions (m :: earlier) m.instant m.ledger

namespace Named

variable {s : State}

theorem wait (h : Named e waiting asked s) (d : Duration) : Named e waiting asked (s.wait d) :=
  ⟨h.now.mono (Nat.le_add_right _ _), h.log⟩

theorem waitUntil (h : Named e waiting asked s) (t : Duration) :
    Named e waiting asked (s.waitUntil t) := by
  rw [waitUntil_eq_wait]
  exact h.wait _

theorem ask (h : Named e waiting asked s) (hop : Nat) (ip : IPv4) :
    Named e waiting asked (e.ask s hop ip).2 :=
  ⟨h.now.ask _, fun later m earlier hlog => (h.log later m earlier hlog).ask _⟩

/-- A ledger is entered all of whose names have their credit. -/
theorem record (h : Named e waiting asked s) {l : Ledger}
    (hl : Credited e waiting asked s.questions (⟨s.clock, l⟩ :: s.timeline) s.clock l) :
    Named e waiting asked (s.record l) := by
  refine ⟨hl, ?_⟩
  intro later m earlier hlog
  cases later with
  | nil =>
      obtain ⟨rfl, rfl⟩ := List.cons.inj hlog
      exact hl
  | cons _ later => exact h.log later m earlier (List.cons.inj hlog).2

/-- A name that is left has its credit still. -/
theorem credited (h : Named e waiting asked s) {l : Ledger} {n : Nat} {g g' : Hop}
    (hg : s.ledger.hop? n = some g) (hg' : l.hop? n = some g') (haddress : g.address = g'.address)
    {name : String} (hname : g.hostname = some name) :
    ∃ address q t older, g'.address = some address ∧
      Credit e waiting asked s.questions (⟨s.clock, l⟩ :: s.timeline) s.clock n address name
        q t older := by
  obtain ⟨address, q, t, older, hold, hc⟩ := h.now n g hg name hname
  have hnew : g'.address = some address := haddress.symm.trans hold
  refine ⟨address, q, t, older, hnew, hc.extend ?_⟩
  show (l.hop? n).bind _ = _
  rw [hg']
  exact hnew

/-- **Entries that name nothing keep all credits.** -/
theorem keep (h : Named e waiting asked s) {l : Ledger} (hl : s.ledger.KeepsNames l) :
    Named e waiting asked (s.record l) := by
  apply h.record
  intro n g' hg' name hname'
  obtain ⟨g, hg, hname, haddress⟩ := hl n g' hg' name hname'
  exact h.credited hg hg' haddress hname

theorem probe (h : Named e waiting asked s) (e' : Engine) (cycle hop : Nat) :
    Named e waiting asked (e'.probe cycle hop s) := by
  have hkeep := h.keep (.updateHop (f := Hop.recordSent) (fun _ _ hname => ⟨hname, rfl⟩)
    s.ledger hop)
  exact ⟨hkeep.now, hkeep.log⟩

theorem recordReply (h : Named e waiting asked s) (n : Nat) (ip : IPv4) (d : Duration) :
    Named e waiting asked (s.record (s.ledger.updateHop n fun h => h.recordReply ip d)) :=
  h.keep (.updateHop (Hop.namesNothing_recordReply ip d) s.ledger n)

end Named

/-! ### Looking up names -/

section Naming

variable {q s : State}

/-- A state of a cycle whose listening ended in a state `q`: every name has its
credit, and no address has changed since. -/
structure Naming (e : Engine) (waiting : List Arrival) (asked : List String) (q s : State) :
    Prop where
  named : Named e waiting asked s
  clock : q.clock ≤ s.clock
  questions : ∃ between, s.questions = between ++ q.questions
  addresses : ∀ n, s.ledger.addressAt n = q.ledger.addressAt n
  log : ∃ since, s.timeline = since ++ q.timeline ∧
    ∀ m ∈ since, ∀ n, m.ledger.addressAt n = q.ledger.addressAt n

/-- A lookup that was started since, for the address that its hop has. -/
def UnderWay (e : Engine) (q s : State) (l : Lookup) : Prop :=
  q.ledger.addressAt l.hop = some l.address ∧
    ∃ t older, AskedSince q s.questions t l.address older ∧
      l.finish = (e.names.name older t l.address).delay.map (t + ·) ∧
      l.name = (e.names.name older t l.address).name

theorem Naming.waitUntil (h : Naming e waiting asked q s) (t : Duration) :
    Naming e waiting asked q (s.waitUntil t) :=
  ⟨h.named.waitUntil t, Nat.le_trans h.clock (Nat.le_max_left _ _), h.questions, h.addresses,
    h.log⟩

theorem Naming.ask (h : Naming e waiting asked q s) (hop : Nat) (ip : IPv4) :
    Naming e waiting asked q (e.ask s hop ip).2 := by
  obtain ⟨between, hquestions⟩ := h.questions
  exact ⟨h.named.ask hop ip, h.clock, ⟨_ :: between, congrArg _ hquestions⟩, h.addresses, h.log⟩

/-- A lookup that starts is under way. -/
theorem Naming.underWay_ask (h : Naming e waiting asked q s) {hop : Nat} {ip : IPv4}
    (hip : s.ledger.addressAt hop = some ip) :
    UnderWay e q (e.ask s hop ip).2 (e.ask s hop ip).1 := by
  obtain ⟨between, hquestions⟩ := h.questions
  refine ⟨(h.addresses hop).symm.trans hip, s.clock, s.questions, ⟨h.clock, [], between, rfl,
    hquestions⟩, rfl, rfl⟩

theorem UnderWay.ask {l : Lookup} (h : UnderWay e q s l) (hop : Nat) (ip : IPv4) :
    UnderWay e q (e.ask s hop ip).2 l := by
  obtain ⟨haddress, t, older, hasked, hanswer⟩ := h
  exact ⟨haddress, t, older, hasked.ask _, hanswer⟩

/-- A ledger is entered with the same addresses, all of whose names have their credit. -/
theorem Naming.record (h : Naming e waiting asked q s) {l : Ledger}
    (hsame : ∀ n, l.addressAt n = q.ledger.addressAt n)
    (hl : Credited e waiting asked s.questions (⟨s.clock, l⟩ :: s.timeline) s.clock l) :
    Naming e waiting asked q (s.record l) := by
  obtain ⟨since, hlog, hkept⟩ := h.log
  refine ⟨h.named.record hl, h.clock, h.questions, hsame, _ :: since, congrArg _ hlog, ?_⟩
  intro m hm n
  rcases List.mem_cons.1 hm with rfl | hm
  · exact hsame n
  · exact hkept m hm n

/-- **An answer is a credit** when it comes in, since no address has changed
while it was awaited. -/
theorem Naming.credit (h : Naming e waiting asked q s) (hwanted : e.config.resolveNames = true)
    (hq : DoneListening e waiting asked q) {l : Lookup} (hl : UnderWay e q s l) {f : Duration}
    (hfinish : l.finish = some f) (hf : f ≤ s.clock) {name : String} (hname : l.name = some name) :
    ∃ t older, Credit e waiting asked s.questions s.timeline s.clock l.hop l.address name
      q t older := by
  obtain ⟨haddress, t, older, hasked, hdelay, hanswer⟩ := hl
  rw [hfinish] at hdelay
  obtain ⟨delay, hsome, rfl⟩ := Option.map_eq_some_iff.1 hdelay.symm
  have hboth : e.names.name older t l.address = ⟨some delay, some name⟩ := by
    rw [hname] at hanswer
    cases hcase : e.names.name older t l.address
    rw [hcase] at hsome hanswer
    simp [← hsome, hanswer]
  obtain ⟨since, hlog, hkept⟩ := h.log
  exact ⟨t, older, hwanted, hq, hasked, ⟨delay, hboth, hf⟩, haddress, since, hlog,
    fun m hm => (hkept m hm l.hop).trans haddress⟩

/-- A name that is entered has its credit, and no address has changed. -/
theorem Naming.enterName (h : Naming e waiting asked q s) (hwanted : e.config.resolveNames = true)
    (hq : DoneListening e waiting asked q) {l : Lookup} (hl : UnderWay e q s l) {f : Duration}
    (hfinish : l.finish = some f) (hf : f ≤ s.clock) :
    Naming e waiting asked q (enterName l s) := by
  refine enterName_cases (fun _ => h) fun name hname => ?_
  obtain ⟨t, older, hcredit⟩ := h.credit hwanted hq hl hfinish hf hname
  have hsame := fun n =>
    (s.ledger.addressAt_updateHop_rename l.hop n l.address name).trans (h.addresses n)
  refine h.record hsame ?_
  intro n g' hg' name' hname'
  have hg := hg'
  by_cases hn : n = l.hop
  · subst hn
    have hheld : g'.address = some l.address := by
      have hnow := (hsame l.hop).trans hl.1
      rwa [Ledger.addressAt, hg'] at hnow
    rw [Ledger.hop?_updateHop_self] at hg
    obtain ⟨g, -, rfl⟩ := Option.map_eq_some_iff.1 hg
    obtain rfl : name = name' := by
      by_cases haddress : g.address = some l.address
      · rw [if_pos haddress] at hname'
        exact Option.some.inj hname'
      · rw [if_neg haddress] at hheld
        exact absurd hheld haddress
    exact ⟨l.address, q, t, older, hheld, hcredit.extend ((hsame l.hop).trans hl.1)⟩
  · rw [Ledger.hop?_updateHop_of_ne _ hn] at hg
    exact h.named.credited hg hg' rfl hname'

theorem Naming.lookUpFrom (h : Naming e waiting asked q s)
    (hwanted : e.config.resolveNames = true) (hq : DoneListening e waiting asked q)
    {deadline : Duration} {hops : List Nat} {active : List Lookup}
    (hactive : ∀ l ∈ active, UnderWay e q s l) :
    Naming e waiting asked q (e.lookUpFrom stop deadline hops active s) := by
  fun_induction Engine.lookUpFrom e stop deadline hops active s with
  | case1 waiting active s hop rest hn _ haddress ih => exact ih h hactive
  | case2 waiting active s hop rest hn _ address haddress l s' hasked ih =>
      have hl : (e.ask s hop address).1 = l := congrArg Prod.fst hasked
      have hs' : (e.ask s hop address).2 = s' := congrArg Prod.snd hasked
      apply ih
      · rw [← hs']
        exact h.ask hop address
      · intro x hx
        rw [← hs']
        rcases List.mem_append.1 hx with hx | hx
        · exact (hactive x hx).ask hop address
        · rw [List.mem_singleton.1 hx, ← hl]
          exact h.underWay_ask haddress
  | case3 waiting s hn => exact h
  | case4 waiting active s hn hactive' hnone => exact h.waitUntil _
  | case5 waiting active s hn hactive' t l others hfirst _ hin ih =>
      obtain ⟨⟨before, after, rfl, rfl⟩, hfinish, -⟩ := firstAnswered_spec hfirst
      have hkeep : (Engine.enterName l (s.waitUntil t)).questions = s.questions :=
        (enterName_frame l (s.waitUntil t)).2
      apply ih
      · exact (h.waitUntil t).enterName hwanted hq (hactive l (by simp)) hfinish
          (Nat.le_max_right _ _)
      · intro x hx
        have hunder := hactive x (List.mem_append.2 ((List.mem_append.1 hx).imp_right (.tail l)))
        unfold UnderWay at hunder ⊢
        rwa [hkeep]
  | case6 waiting active s hn hactive' t l others hfirst _ hin => exact h.waitUntil _

/-- Names are looked up where they are wanted. -/
theorem Named.nameHops {l : Listening} (h : Named e waiting asked l.state)
    (hq : DoneListening e waiting asked l.state) : Named e waiting asked (e.nameHops stop l) := by
  unfold Engine.nameHops lookUp
  split
  · next hwanted =>
    split
    · exact h
    · have hstart : Naming e waiting asked l.state l.state :=
        ⟨h, Nat.le_refl _, ⟨[], rfl⟩, fun _ => rfl, [], rfl, by simp⟩
      exact (hstart.lookUpFrom hwanted hq (by simp)).named
  · exact h

end Naming

/-! ### Every state of every history -/

variable {s : State}

theorem Named.cycle (h : Named e waiting asked s) (hs : Reachable e waiting asked s)
    (hstop : stop.raised s = false) : Named e waiting asked (e.cycle stop s).state := by
  have hpass : Named e waiting asked (e.passOf stop s).state :=
    sendPass_preserves (fun hop _ h => h.probe e _ hop) (fun _ d h => h.wait d) h
  have hfinal : ∀ {s : State} (r : CycleReport), Named e waiting asked s →
      Named e waiting asked (s.file r).finalize :=
    fun r h => Named.keep (s := State.file _ r) ⟨h.now, h.log⟩ (.finalize _)
  by_cases hcomplete : (e.passOf stop s).isComplete = true
  · rw [cycle_of_complete hcomplete]
    apply hfinal
    have hheard : Named e waiting asked (e.heardIn stop s).state :=
      (heardIn_heard e stop s).preserves (fun _ t h => h.waitUntil t)
        (fun _ _ h => ⟨h.now, h.log⟩) (fun _ n ip d h => h.recordReply n ip d) hpass
    exact hheard.nameHops ⟨s, stop, hs, hstop, hcomplete, rfl⟩
  · rw [cycle_of_cut hcomplete]
    exact hfinal _ hpass

/-- **Every name has its credit** in every reachable state. -/
theorem Reachable.named (h : Reachable e waiting asked s) : Named e waiting asked s := by
  induction h with
  | start =>
      have hnone : ∀ questions log now, Credited e waiting asked questions log now
          (e.start waiting asked).ledger := by
        intro questions log now n g hg name hname
        obtain ⟨m, -, rfl⟩ := List.mem_map.1 (Ledger.mem_of_hop? hg)
        simp [Hop.new, HopView.new] at hname
      refine ⟨hnone _ _ _, ?_⟩
      intro later m earlier hlog
      have hm : m ∈ (e.start waiting asked).timeline := hlog ▸ by simp
      obtain rfl := List.mem_singleton.1 hm
      exact hnone _ _ _
  | wait d _ ih => exact ih.wait d
  | markStart _ ih => exact markStart_cases (fun _ => ih.keep (.of_hops rfl)) fun _ => ih
  | complete stop mark h hstop _ ih => exact (ih.cycle h hstop).keep (.of_hops rfl)
  | cut stop h hstop _ ih => exact ih.cycle h hstop

/-! ### What shows a hop -/

/-- Everything that shows a hop shows it alike: its name where there is one, with
the address beside it or behind it in parentheses; else its address, else
question marks. -/
def ShownAlike (h : HopView) : Prop :=
  match h.hostname, h.address with
  | some name, some ip =>
    h.displayHost = name ∧
      (Export.Csv.row h)[1]? = some ip.text ∧ (Export.Csv.row h)[2]? = some name.toList ∧
      Export.Report.host h = name.toList ++ " (".toList ++ ip.text ++ ")".toList
  | some _, none => False
  | none, some ip => h.displayHost.toList = ip.text ∧ Export.Report.host h = ip.text
  | none, none => h.displayHost = "???" ∧ Export.Report.host h = "???".toList

theorem shownAlike_of_address {h : HopView}
    (haddress : h.hostname.isSome = true → h.address.isSome = true) : ShownAlike h := by
  unfold ShownAlike HopView.displayHost Export.Report.host Export.Csv.row
  cases hname : h.hostname with
  | some name =>
      cases hip : h.address with
      | some ip => exact ⟨rfl, rfl, rfl, rfl⟩
      | none => simp [hname, hip] at haddress
  | none =>
      cases hip : h.address with
      | some ip => exact ⟨String.toList_ofList, rfl⟩
      | none => exact ⟨rfl, rfl⟩

/-- **The name of a hop is the name of the address that it has**, at every moment
of every history: it was answered to a question for that address, asked in a
cycle whose lookups began when the hop had the address already, and the hop has
had it ever since.  Where names are not wanted there are none.  So every
snapshot is shown alike by everything that shows it. -/
theorem names_up_to_date (e : Engine) (waiting : List Arrival) (asked : List String)
    (visits : List Visit) :
    let s := e.history waiting asked visits
    (∀ later m earlier, s.timeline = later ++ m :: earlier →
      Credited e waiting asked s.questions (m :: earlier) m.instant m.ledger) ∧
    (e.config.resolveNames = false →
      ∀ m ∈ s.timeline, ∀ h ∈ m.ledger.hops, h.hostname = none) ∧
    (∀ m ∈ s.timeline, ∀ h ∈ m.ledger.snapshot.hops, ShownAlike h) ∧
    s.timeline.head?.map (·.ledger) = some s.ledger := by
  intro s
  have hs : Reachable e waiting asked s := history_reachable e waiting asked visits
  have hcredit : ∀ m ∈ s.timeline, ∀ h ∈ m.ledger.hops, ∀ name, h.hostname = some name →
      e.config.resolveNames = true ∧ h.address.isSome = true := by
    intro m hm h hh name hname
    obtain ⟨earlier, later, hlog⟩ := List.append_of_mem hm
    obtain ⟨n, hn⟩ := Ledger.exists_hop?_of_mem hh
    obtain ⟨address, q, t, older, haddress, hc⟩ := hs.named.log _ m _ hlog n h hn name hname
    exact ⟨hc.isWanted, by rw [haddress]; rfl⟩
  refine ⟨hs.named.log, ?_, ?_, hs.ascending.last⟩
  · intro hunwanted m hm h hh
    cases hname : h.hostname with
    | none => rfl
    | some name =>
        have hwanted := (hcredit m hm h hh name hname).1
        exact absurd (hunwanted.symm.trans hwanted) Bool.false_ne_true
  · intro m hm h hh
    obtain ⟨g, hg, rfl⟩ := List.mem_map.1 hh
    apply shownAlike_of_address
    intro hsome
    obtain ⟨name, hname⟩ := Option.isSome_iff_exists.1 hsome
    exact (hcredit m hm g hg name hname).2

end PathMeter.Engine
