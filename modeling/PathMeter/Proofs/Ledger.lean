import PathMeter.Ledger

/-!
# What entries do to a ledger

An entry changes the hop that it names and no other: `hop?_updateHop_self` and
`hop?_updateHop_of_ne` say this position by position, and everything else
about single entries follows from the two.

A ledger is sound when its hops are numbered from one without gaps and none
has more replies than sends.  Every change of a hop that keeps its number and
this balance keeps the ledger sound (`Sound.updateHop`, `Sound.updateAll`), so
a sound ledger stays sound whatever the engine enters.
-/

namespace PathMeter.Ledger

/-- The hop that an entry names is the one that it changes. -/
theorem hop?_updateHop_self (l : Ledger) (n : Nat) (f : Hop → Hop) :
    (l.updateHop n f).hop? n = (l.hop? n).map f := by
  unfold updateHop hop?
  by_cases hn : n = 0
  · simp [hn]
  · simp [hn]

/-- An entry changes no hop but the one that it names. -/
theorem hop?_updateHop_of_ne {l : Ledger} {m n : Nat} (f : Hop → Hop) (h : n ≠ m) :
    (l.updateHop m f).hop? n = l.hop? n := by
  unfold updateHop hop?
  by_cases hm : m = 0
  · simp [hm]
  · by_cases hn : n = 0
    · simp [hn]
    · have hne : m - 1 ≠ n - 1 := by omega
      simp [hm, hn, hne]

@[simp] theorem hop?_updateAll (l : Ledger) (f : Hop → Hop) (n : Nat) :
    (l.updateAll f).hop? n = (l.hop? n).map f := by
  unfold updateAll hop?
  by_cases hn : n = 0
  · simp [hn]
  · simp [hn]

@[simp] theorem cycles_updateHop (l : Ledger) (n : Nat) (f : Hop → Hop) :
    (l.updateHop n f).cycles = l.cycles := by
  unfold updateHop
  split <;> rfl

@[simp] theorem destination_updateHop (l : Ledger) (n : Nat) (f : Hop → Hop) :
    (l.updateHop n f).destination = l.destination := by
  unfold updateHop
  split <;> rfl

/-- An entry that leaves a part of every hop alone leaves it alone in the
ledger. -/
theorem map_hop?_updateHop {α : Type} {f : Hop → Hop} {part : Hop → α}
    (hf : ∀ h, part (f h) = part h) (l : Ledger) (m n : Nat) :
    ((l.updateHop m f).hop? n).map part = (l.hop? n).map part := by
  by_cases hn : n = m
  · subst hn
    have hcomp : part ∘ f = part := funext hf
    rw [hop?_updateHop_self, Option.map_map, hcomp]
  · rw [hop?_updateHop_of_ne f hn]

/-- So does bringing every hop up to date. -/
theorem map_hop?_finalize {α : Type} {part : Hop → α} (hpart : ∀ h, part h.finalize = part h)
    (l : Ledger) (n : Nat) : (l.finalize.hop? n).map part = (l.hop? n).map part := by
  have hcomp : part ∘ Hop.finalize = part := funext hpart
  rw [finalize, hop?_updateAll, Option.map_map, hcomp]

/-- A hop of a ledger stands at some position. -/
theorem mem_of_hop? {l : Ledger} {n : Nat} {h : Hop} (hh : l.hop? n = some h) : h ∈ l.hops := by
  unfold hop? at hh
  split at hh
  · simp at hh
  · exact List.mem_of_getElem? hh

/-- A ledger whose hops are numbered from one to the last position that is
probed, none with more replies than sends. -/
structure Sound (maxHops : Nat) (l : Ledger) : Prop where
  numbered : l.hops.map (·.number) = List.range' 1 maxHops
  bounded : ∀ h ∈ l.hops, h.received ≤ h.sent

theorem Sound.length_hops {m : Nat} {l : Ledger} (hl : l.Sound m) : l.hops.length = m := by
  simpa using congrArg List.length hl.numbered

/-- Every position that is probed has a hop. -/
theorem Sound.exists_hop {m n : Nat} {l : Ledger} (hl : l.Sound m) (h1 : 1 ≤ n) (hm : n ≤ m) :
    ∃ h, l.hop? n = some h := by
  have hlt : n - 1 < l.hops.length := by
    rw [hl.length_hops]
    omega
  have hn : n ≠ 0 := by omega
  exact ⟨l.hops[n - 1], by simp [hop?, hn, hlt]⟩

/-- The hop at a position carries its number. -/
theorem Sound.number_eq {m n : Nat} {l : Ledger} {h : Hop} (hl : l.Sound m)
    (hh : l.hop? n = some h) : h.number = n := by
  unfold hop? at hh
  split at hh
  · simp at hh
  · have hmap : (l.hops.map (·.number))[n - 1]? = some h.number := by
      rw [List.getElem?_map, hh]
      rfl
    rw [hl.numbered, List.getElem?_eq_some_iff] at hmap
    obtain ⟨hlt, hnumber⟩ := hmap
    rw [List.getElem_range'] at hnumber
    omega

theorem sound_new (target : String) (destination : IPv4) (m : Nat) (t : Time.Timestamp) :
    (Ledger.new target destination m t).Sound m := by
  constructor
  · have hid : (fun h : Hop => h.number) ∘ Hop.new = id := rfl
    simp only [Ledger.new, List.map_map, hid, List.map_id]
  · intro h hh
    obtain ⟨n, -, rfl⟩ := List.mem_map.1 hh
    exact Nat.le_refl 0

/-- A change of one hop that keeps its number and its balance keeps the ledger
sound. -/
theorem Sound.updateHop {m n : Nat} {l : Ledger} (hl : l.Sound m) {f : Hop → Hop}
    (hnum : ∀ h, (f h).number = h.number)
    (hbal : ∀ h, h.received ≤ h.sent → (f h).received ≤ (f h).sent) :
    (l.updateHop n f).Sound m := by
  unfold Ledger.updateHop
  by_cases hn : n = 0
  · simpa [hn] using hl
  · rw [if_neg hn]
    constructor
    · rw [← hl.numbered]
      apply List.ext_getElem?
      intro i
      rw [List.getElem?_map, List.getElem?_map, List.getElem?_modify]
      cases l.hops[i]? with
      | none => rfl
      | some h => by_cases hi : n - 1 = i <;> simp [hi, hnum]
    · intro h hh
      obtain ⟨i, hi⟩ := List.getElem?_of_mem hh
      rw [List.getElem?_modify] at hi
      obtain ⟨g, hg, rfl⟩ := Option.map_eq_some_iff.1 hi
      have hgb := hl.bounded g (List.mem_of_getElem? hg)
      by_cases hi : n - 1 = i
      · simpa [hi] using hbal g hgb
      · simpa [hi] using hgb

/-- A change of every hop that keeps numbers and balances keeps the ledger
sound. -/
theorem Sound.updateAll {m : Nat} {l : Ledger} (hl : l.Sound m) {f : Hop → Hop}
    (hnum : ∀ h, (f h).number = h.number)
    (hbal : ∀ h, h.received ≤ h.sent → (f h).received ≤ (f h).sent) :
    (l.updateAll f).Sound m := by
  constructor
  · have hcomp : (fun h : Hop => h.number) ∘ f = fun h => h.number := funext hnum
    simpa only [Ledger.updateAll, List.map_map, hcomp] using hl.numbered
  · intro h hh
    obtain ⟨g, hg, rfl⟩ := List.mem_map.1 hh
    exact hbal g (hl.bounded g hg)

theorem Sound.recordSent {m n : Nat} {l : Ledger} (hl : l.Sound m) :
    (l.updateHop n Hop.recordSent).Sound m :=
  hl.updateHop (fun _ => rfl) fun _ hle => Nat.le_succ_of_le hle

theorem Sound.recordReply {m n : Nat} {l : Ledger} (hl : l.Sound m) (ip : IPv4) (d : Duration) :
    (l.updateHop n fun h => h.recordReply ip d).Sound m := by
  apply hl.updateHop
  · exact fun h => h.number_recordReply ip d
  · exact fun h hle => h.received_le_sent_reply ip d hle

theorem Sound.finalize {m : Nat} {l : Ledger} (hl : l.Sound m) : l.finalize.Sound m :=
  hl.updateAll (fun _ => rfl) fun _ hle => hle

end PathMeter.Ledger
