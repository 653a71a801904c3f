import PathMeter.Proofs.Stage

/-!
# The account of a hop

A hop is told of probes sent, of replies and of the ends of cycles, and it has
no say in their order.  A log of such calls, newest first, tells by itself which
replies count: those before which fewer replies counted than probes were sent
(`effective`).  This file says that the account a hop keeps is the one that can
be read off its log (`after_account`), by induction on the log, and that
bringing it up to date is safe and final at any point of it (`settled_finalize`).

The shortest and the longest round trip are told from the round trips alone, so
the order in which they came in does not matter (`Sample.range_perm`).
-/

namespace PathMeter

namespace Sample

/-- The shortest and the longest of some round trips do not depend on their
order. -/
theorem range_perm {xs ys : List Duration} (h : xs.Perm ys) :
    (of xs).shortest = (of ys).shortest ∧ (of xs).longest = (of ys).longest := by
  by_cases hxs : xs = []
  · subst hxs
    rw [h.nil_eq]
    exact ⟨rfl, rfl⟩
  · have hys : ys ≠ [] := by
      rintro rfl
      exact hxs h.eq_nil
    obtain ⟨hshortest, hleast⟩ := shortest_spec hxs
    obtain ⟨hshortest', hleast'⟩ := shortest_spec hys
    obtain ⟨hlongest, hmost⟩ := longest_spec hxs
    obtain ⟨hlongest', hmost'⟩ := longest_spec hys
    exact ⟨Nat.le_antisymm (hleast _ (h.mem_iff.2 hshortest')) (hleast' _ (h.mem_iff.1 hshortest)),
      Nat.le_antisymm (hmost' _ (h.mem_iff.1 hlongest)) (hmost _ (h.mem_iff.2 hlongest'))⟩

end Sample

namespace Hop

/-- What a hop may be told. -/
inductive Call where
  | sent
  | reply (responder : IPv4) (roundTrip : Duration)
  | finalize
  deriving DecidableEq, Repr

/-- What a call makes of a hop. -/
def Call.apply : Call → Hop → Hop
  | sent, h => h.recordSent
  | reply ip d, h => h.recordReply ip d
  | finalize, h => h.finalize

/-- A new hop after the calls of a log, newest first. -/
def after (number : Nat) : List Call → Hop
  | [] => new number
  | call :: earlier => call.apply (after number earlier)

/-- The replies of a log that take effect, newest first: a reply does when fewer
replies than sends have been recorded before it. -/
def effective : List Call → List (IPv4 × Duration)
  | [] => []
  | .reply ip d :: earlier =>
    if (effective earlier).length < earlier.count .sent then (ip, d) :: effective earlier
    else effective earlier
  | _ :: earlier => effective earlier

/-- The account of a hop, as its log has it. -/
structure Account (number : Nat) (log : List Call) (h : Hop) : Prop where
  number : h.number = number
  sent : h.sent = log.count .sent
  received : h.received = (effective log).length
  length_samples : h.samples.length = h.received
  received_le : h.received ≤ h.sent
  /-- The round trips are those of the effective replies, oldest first. -/
  samples : h.samples = ((effective log).map (·.2)).reverse
  last : h.last = h.samples.getLastD 0
  /-- The address is that of the last effective reply. -/
  address : h.address = (effective log).head?.map (·.1)
  hostname : h.hostname = none

/-- What bringing a hop up to date comes to. -/
structure Settled (h f : Hop) : Prop where
  /-- Nothing is lost of what was received, and the rest is. -/
  balance : f.lost + f.received = f.sent
  counters : f.sent = h.sent ∧ f.received = h.received ∧ f.samples = h.samples
  silent : h.samples = [] → f.shortest = Duration.limit ∧ f.longest = 0
  shortest : h.samples ≠ [] → f.shortest ∈ h.samples ∧ ∀ d ∈ h.samples, f.shortest ≤ d
  longest : h.samples ≠ [] → f.longest ∈ h.samples ∧ ∀ d ∈ h.samples, d ≤ f.longest
  /-- The same round trips in any other order give the same two. -/
  order : ∀ xs : List Duration, xs.Perm h.samples →
    (Sample.of xs).shortest = f.shortest ∧ (Sample.of xs).longest = f.longest
  again : f.finalize = f

section Reply

variable {h : Hop}

/-- A hop that awaits no reply ignores it. -/
theorem recordReply_of_le (hle : h.sent ≤ h.received) (ip : IPv4) (d : Duration) :
    h.recordReply ip d = h := by
  have hnot : h.expectsReply = false := decide_eq_false (Nat.not_lt.2 hle)
  rw [recordReply, hnot]
  rfl

theorem changedBy_iff {ip : IPv4} :
    h.changedBy ip = true ↔ h.received < h.sent ∧ h.address ≠ some ip := by
  rw [changedBy, expectsReply, Bool.and_eq_true, decide_eq_true_eq, decide_eq_true_eq]

/-- A reply leaves a hop alone just when none is awaited. -/
theorem recordReply_eq_self_iff {ip : IPv4} {d : Duration} :
    h.recordReply ip d = h ↔ ¬ h.received < h.sent := by
  constructor
  · intro hsame hlt
    rw [recordReply_of_lt hlt] at hsame
    exact Nat.succ_ne_self h.received (congrArg (·.received) hsame)
  · exact fun hnot => recordReply_of_le (Nat.le_of_not_lt hnot) ip d

end Reply

section Account

variable {number : Nat} {log : List Call} {h : Hop}

theorem Account.recordSent (hh : Account number log h) :
    Account number (.sent :: log) h.recordSent where
  number := hh.number
  sent := by
    rw [List.count_cons_self, ← hh.sent]
    rfl
  received := hh.received
  length_samples := hh.length_samples
  received_le := Nat.le_succ_of_le hh.received_le
  samples := hh.samples
  last := hh.last
  address := hh.address
  hostname := hh.hostname

theorem Account.finalize (hh : Account number log h) :
    Account number (.finalize :: log) h.finalize where
  number := hh.number
  sent := by
    rw [List.count_cons_of_ne (by decide)]
    exact hh.sent
  received := hh.received
  length_samples := hh.length_samples
  received_le := hh.received_le
  samples := hh.samples
  last := hh.last
  address := hh.address
  hostname := hh.hostname

theorem Account.recordReply (hh : Account number log h) (ip : IPv4) (d : Duration) :
    Account number (.reply ip d :: log) (h.recordReply ip d) := by
  have hcount : (Call.reply ip d :: log).count .sent = log.count .sent :=
    List.count_cons_of_ne (by simp)
  by_cases hlt : h.received < h.sent
  · have heffective : effective (.reply ip d :: log) = (ip, d) :: effective log := by
      rw [effective, if_pos (by rwa [← hh.received, ← hh.sent])]
    rw [recordReply_of_lt hlt]
    constructor
    case number => exact hh.number
    case sent => rw [hcount, ← hh.sent]
    case received => rw [heffective, List.length_cons, ← hh.received]
    case length_samples => rw [List.length_append, List.length_singleton, hh.length_samples]
    case received_le => exact hlt
    case samples => rw [heffective, List.map_cons, List.reverse_cons, ← hh.samples]
    case last => exact List.getLastD_concat.symm
    case address => rw [heffective, List.head?_cons, Option.map_some]
    case hostname => simp [hh.hostname]
  · have heffective : effective (.reply ip d :: log) = effective log := by
      rw [effective, if_neg (by rwa [← hh.received, ← hh.sent])]
    rw [recordReply_of_le (Nat.le_of_not_lt hlt)]
    exact ⟨hh.number, hcount ▸ hh.sent, heffective ▸ hh.received, hh.length_samples,
      hh.received_le, heffective ▸ hh.samples, hh.last, heffective ▸ hh.address, hh.hostname⟩

/-- **A hop keeps the account of its log**, call by call. -/
theorem after_account (number : Nat) (log : List Call) :
    Account number log (after number log) := by
  induction log with
  | nil =>
      exact ⟨rfl, rfl, rfl, rfl, Nat.le_refl 0, rfl, rfl, rfl, rfl⟩
  | cons call earlier ih =>
      cases call with
      | sent => exact ih.recordSent
      | reply ip d => exact ih.recordReply ip d
      | finalize => exact ih.finalize

/-- Bringing a hop up to date is safe and final as long as it has no more replies
than sends. -/
theorem settled_finalize (hle : h.received ≤ h.sent) : Settled h h.finalize where
  balance := Nat.sub_add_cancel hle
  counters := ⟨rfl, rfl, rfl⟩
  silent hnil := by
    show (Sample.of h.samples).shortest = _ ∧ (Sample.of h.samples).longest = _
    rw [hnil]
    exact ⟨rfl, rfl⟩
  shortest hne := Sample.shortest_spec hne
  longest hne := Sample.longest_spec hne
  order _ hperm := Sample.range_perm hperm
  again := rfl

end Account

/-- **The account of a hop**, after any calls in any order.  It is the one of its
log; one reply more takes effect just when fewer replies than sends have been
recorded, and is told to bring a new responder just when it takes effect and the
last one that did came from another address, or none did; and bringing the hop
up to date settles it. -/
theorem account_kept (number : Nat) (log : List Call) :
    let h := after number log
    Account number log h ∧
      (∀ ip d, (h.recordReply ip d = h ↔ ¬ (effective log).length < log.count .sent) ∧
        (h.changedBy ip = true ↔ (effective log).length < log.count .sent ∧
          (effective log).head?.map (·.1) ≠ some ip)) ∧
      Settled h h.finalize := by
  intro h
  have hh : Account number log h := after_account number log
  refine ⟨hh, fun ip d => ?_, settled_finalize hh.received_le⟩
  rw [← hh.received, ← hh.sent, ← hh.address]
  exact ⟨recordReply_eq_self_iff, changedBy_iff⟩

/-- Of three replies to two sends the last is ignored, and so is one that came
before any send. -/
example : effective [.reply ⟨10, 0, 0, 1⟩ 4, .reply ⟨10, 0, 0, 2⟩ 3, .finalize,
    .reply ⟨10, 0, 0, 1⟩ 2, .sent, .sent, .reply ⟨10, 0, 0, 1⟩ 1] =
      [(⟨10, 0, 0, 2⟩, 3), (⟨10, 0, 0, 1⟩, 2)] := by
  decide

end Hop

end PathMeter
