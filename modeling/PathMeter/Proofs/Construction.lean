import PathMeter.Engine.State
import PathMeter.Names.Target
import PathMeter.Proofs.TargetReading

/-!
# When an engine is built

An engine is built on a configuration of use whose target leads to an IPv4
address, and on no other.

A configuration is of use (`Config.IsUseful`) or has a first fault
(`Config.IsUseless`); its target's name leads to an address
(`Inquiry.LeadsTo`) or there is a reason why it leads nowhere
(`Inquiry.LeadsNowhere`).  Both are lists of cases.  Each case fixes the result
of the search, and for every configuration, name and answer there is a case
that holds; so the cases say exactly what the result is (`built_exactly`).
-/

namespace PathMeter.Config

/-- A configuration that asks for something that can be done, where `name` is
the name of its target. -/
structure IsUseful (c : Config) (name : List Char) : Prop where
  target : name ≠ []
  maxHops : 1 ≤ c.maxHops.toNat
  timeout : 0 < c.timeout

/-- What is wrong with a configuration whose target is `name`, and how a user
is told. -/
inductive IsUseless (c : Config) (name : List Char) : PathMeter.Fault → Prop where
  | emptyTarget (hname : name = []) :
      IsUseless c name (.invalidConfig "target must not be empty")
  | noHops (hname : name ≠ []) (hhops : c.maxHops = 0) :
      IsUseless c name (.invalidConfig "max hops must be at least 1")
  | noTimeout (hname : name ≠ []) (hhops : c.maxHops ≠ 0) (htimeout : c.timeout = 0) :
      IsUseless c name (.invalidConfig "timeout must be positive")

instance (c : Config) (name : List Char) : Decidable (c.IsUseful name) :=
  decidable_of_iff (name ≠ [] ∧ 1 ≤ c.maxHops.toNat ∧ 0 < c.timeout)
    ⟨fun ⟨htarget, hhops, htimeout⟩ => ⟨htarget, hhops, htimeout⟩,
      fun h => ⟨h.target, h.maxHops, h.timeout⟩⟩

theorem one_le_maxHops_iff {c : Config} : 1 ≤ c.maxHops.toNat ↔ c.maxHops ≠ 0 := by
  rw [Nat.one_le_iff_ne_zero, ne_eq, ne_eq, ← UInt8.toNat_inj]
  rfl

theorem useful_or_useless (c : Config) (name : List Char) :
    c.IsUseful name ∨ ∃ fault, c.IsUseless name fault := by
  by_cases hname : name = []
  · exact .inr ⟨_, .emptyTarget hname⟩
  by_cases hhops : c.maxHops = 0
  · exact .inr ⟨_, .noHops hname hhops⟩
  by_cases htimeout : c.timeout = 0
  · exact .inr ⟨_, .noTimeout hname hhops htimeout⟩
  · exact .inl ⟨hname, one_le_maxHops_iff.2 hhops, Nat.pos_of_ne_zero htimeout⟩

theorem IsUseless.not_isUseful {c : Config} {name : List Char} {fault : PathMeter.Fault}
    (h : c.IsUseless name fault) : ¬ c.IsUseful name := by
  intro huseful
  cases h with
  | emptyTarget hname => exact huseful.target hname
  | noHops _ hhops => exact one_le_maxHops_iff.1 huseful.maxHops hhops
  | noTimeout _ _ htimeout => exact Nat.ne_of_gt huseful.timeout htimeout

end PathMeter.Config

namespace PathMeter.Inquiry

variable {c : Config} {name : List Char} {answer : String → HostAnswer}

/-- The address that a name leads to, where `answer` is what the name service
says to it. -/
inductive LeadsTo (name : List Char) (answer : HostAnswer) : IPv4 → Prop where
  | literal {ip : IPv4} (hname : name = ip.text) : LeadsTo name answer ip
  | answered {before : List IPv6} {ip : IPv4} {after : List IPAddress}
      (hname : IPAddress.ofText? name = none)
      (hanswer : answer = .ok (before.map .v6 ++ .v4 ip :: after)) : LeadsTo name answer ip

/-- Why a name leads to no address. -/
inductive LeadsNowhere (name : List Char) (answer : HostAnswer) : Fault → Prop where
  | literal {ip : IPv6} (hname : IPAddress.ofText? name = some (.v6 ip)) :
      LeadsNowhere name answer (.notV4 (String.ofList name) (.v6 ip))
  | refused {reason : String} (hname : IPAddress.ofText? name = none)
      (hanswer : answer = .error reason) :
      LeadsNowhere name answer (.unresolved (String.ofList name) reason)
  | empty (hname : IPAddress.ofText? name = none) (hanswer : answer = .ok []) :
      LeadsNowhere name answer (.unresolved (String.ofList name) "no addresses found")
  | allV6 {first : IPv6} {rest : List IPv6} (hname : IPAddress.ofText? name = none)
      (hanswer : answer = .ok (.v6 first :: rest.map .v6)) :
      LeadsNowhere name answer (.notV4 (String.ofList name) (.v6 first))

/-- Every name leads somewhere or nowhere. -/
theorem leads (name : List Char) (answer : HostAnswer) :
    (∃ ip, LeadsTo name answer ip) ∨ ∃ fault, LeadsNowhere name answer fault := by
  cases hname : IPAddress.ofText? name with
  | some address =>
      cases address with
      | v4 ip => exact .inl ⟨ip, .literal (IPAddress.ofText?_eq_v4_iff.1 hname)⟩
      | v6 ip => exact .inr ⟨_, .literal hname⟩
  | none =>
      cases answer with
      | error reason => exact .inr ⟨_, .refused hname rfl⟩
      | ok addresses =>
          obtain ⟨before, ip, after, rfl⟩ | ⟨ips, rfl⟩ := IPAddress.split_at_first_v4 addresses
          · exact .inl ⟨ip, .answered hname rfl⟩
          · cases ips with
            | nil => exact .inr ⟨_, .empty hname rfl⟩
            | cons first rest => exact .inr ⟨_, .allV6 hname rfl⟩

/-! ### The search follows the cases -/

theorem ofAnswer_first_v4 (name : String) (before : List IPv6) (ip : IPv4)
    (after : List IPAddress) :
    ofAnswer name (.ok (before.map .v6 ++ .v4 ip :: after)) = .ok ip := by
  unfold ofAnswer
  simp only [IPAddress.findSome?_first_v4]

theorem ofAnswer_v6s (name : String) (first : IPv6) (rest : List IPv6) :
    ofAnswer name (.ok (.v6 first :: rest.map .v6)) = .error (.notV4 name (.v6 first)) := by
  unfold ofAnswer
  simp only [← List.map_cons, IPAddress.findSome?_v6s]
  rfl

theorem ofTarget_of_literal {target : String} {ip : IPv4}
    (htrim : Text.trim target.toList = ip.text) : ofTarget target = .settled (.ok ip) := by
  unfold ofTarget
  rw [htrim]
  simp only [IPAddress.ofText?_eq_v4_iff.2 (rfl : ip.text = ip.text)]

theorem ofTarget_of_not_literal {target : String} (htrim : Text.trim target.toList = name)
    (hname : IPAddress.ofText? name = none) :
    ofTarget target = .ask (String.ofList name) (ofAnswer (String.ofList name)) := by
  unfold ofTarget
  simp only [htrim, hname]

theorem result_of_leadsTo {target : String} {ip : IPv4} (htrim : Text.trim target.toList = name)
    (h : LeadsTo name (answer (String.ofList name)) ip) :
    (ofTarget target).result answer = .ok ip := by
  cases h with
  | literal hname => rw [ofTarget_of_literal (htrim.trans hname), result]
  | answered hname hanswer =>
      rw [ofTarget_of_not_literal htrim hname, result, hanswer, ofAnswer_first_v4]

theorem result_of_leadsNowhere {target : String} {fault : Fault}
    (htrim : Text.trim target.toList = name)
    (h : LeadsNowhere name (answer (String.ofList name)) fault) :
    (ofTarget target).result answer = .error fault := by
  cases h with
  | literal hname =>
      unfold ofTarget
      simp only [htrim, hname, result]
  | refused hname hanswer =>
      rw [ofTarget_of_not_literal htrim hname, result, hanswer]
      rfl
  | empty hname hanswer =>
      rw [ofTarget_of_not_literal htrim hname, result, hanswer]
      rfl
  | allV6 hname hanswer =>
      rw [ofTarget_of_not_literal htrim hname, result, hanswer, ofAnswer_v6s]

/-- A configuration of use is searched for the address of its target. -/
theorem ofConfig_of_isUseful (htrim : Text.trim c.target.toList = name) (h : c.IsUseful name) :
    ofConfig c = ofTarget c.target := by
  unfold ofConfig Config.fault?
  rw [htrim, if_neg h.target, if_neg (Config.one_le_maxHops_iff.1 h.maxHops),
    if_neg (Nat.pos_iff_ne_zero.1 h.timeout)]

/-- A useless one ends the search at once. -/
theorem ofConfig_of_isUseless {fault : Fault} (htrim : Text.trim c.target.toList = name)
    (h : c.IsUseless name fault) : ofConfig c = .settled (.error fault) := by
  unfold ofConfig Config.fault?
  rw [htrim]
  cases h with
  | emptyTarget hname => rw [if_pos hname]; rfl
  | noHops hname hhops => rw [if_neg hname, if_pos hhops]; rfl
  | noTimeout hname hhops htimeout => rw [if_neg hname, if_neg hhops, if_pos htimeout]; rfl

/-- The search finds an address exactly where a useful configuration's target
leads to it. -/
theorem result_ofConfig_eq_ok_iff {ip : IPv4} (htrim : Text.trim c.target.toList = name) :
    (ofConfig c).result answer = .ok ip ↔
      c.IsUseful name ∧ LeadsTo name (answer (String.ofList name)) ip := by
  constructor
  · intro h
    rcases c.useful_or_useless name with huseful | ⟨fault, huseless⟩
    · rw [ofConfig_of_isUseful htrim huseful] at h
      obtain ⟨ip', hleads⟩ | ⟨fault, hnowhere⟩ := leads name (answer (String.ofList name))
      · have hip : ip' = ip := Except.ok.inj ((result_of_leadsTo htrim hleads).symm.trans h)
        exact ⟨huseful, hip ▸ hleads⟩
      · exact nomatch (result_of_leadsNowhere htrim hnowhere).symm.trans h
    · rw [ofConfig_of_isUseless htrim huseless] at h
      exact nomatch h
  · rintro ⟨huseful, hleads⟩
    rw [ofConfig_of_isUseful htrim huseful]
    exact result_of_leadsTo htrim hleads

/-- It fails with the fault of the configuration or, if there is none, with
what keeps the target from leading anywhere. -/
theorem result_ofConfig_eq_error_iff {fault : Fault} (htrim : Text.trim c.target.toList = name) :
    (ofConfig c).result answer = .error fault ↔
      c.IsUseless name fault ∨
        c.IsUseful name ∧ LeadsNowhere name (answer (String.ofList name)) fault := by
  constructor
  · intro h
    rcases c.useful_or_useless name with huseful | ⟨fault', huseless⟩
    · rw [ofConfig_of_isUseful htrim huseful] at h
      obtain ⟨ip, hleads⟩ | ⟨fault', hnowhere⟩ := leads name (answer (String.ofList name))
      · exact nomatch (result_of_leadsTo htrim hleads).symm.trans h
      · have hfault : fault' = fault :=
          Except.error.inj ((result_of_leadsNowhere htrim hnowhere).symm.trans h)
        exact .inr ⟨huseful, hfault ▸ hnowhere⟩
    · rw [ofConfig_of_isUseless htrim huseless] at h
      exact .inl (Except.error.inj h ▸ huseless)
  · rintro (huseless | ⟨huseful, hnowhere⟩)
    · rw [ofConfig_of_isUseless htrim huseless]
      rfl
    · rw [ofConfig_of_isUseful htrim huseful]
      exact result_of_leadsNowhere htrim hnowhere

/-- Only a name that is no address is asked for, once and as it stands between
the blanks, and only for a configuration of use. -/
theorem asked_ofConfig (htrim : Text.trim c.target.toList = name) :
    (ofConfig c).asked =
      if c.IsUseful name ∧ IPAddress.ofText? name = none then [String.ofList name] else [] := by
  rcases c.useful_or_useless name with huseful | ⟨fault, huseless⟩
  · rw [ofConfig_of_isUseful htrim huseful]
    cases hname : IPAddress.ofText? name with
    | none =>
        rw [ofTarget_of_not_literal htrim hname, if_pos ⟨huseful, rfl⟩]
        rfl
    | some address =>
        rw [if_neg fun h => nomatch h.2]
        unfold ofTarget
        cases address <;> simp only [htrim, hname, asked]
  · rw [ofConfig_of_isUseless htrim huseless, if_neg fun h => huseless.not_isUseful h.1]
    rfl

example : (ofConfig (Config.forTarget "\thost ")).asked = ["host"] := by decide

/-- Only the answers to what is asked count. -/
theorem result_congr {i : Inquiry} {other : String → HostAnswer}
    (h : ∀ name ∈ i.asked, other name = answer name) : i.result other = i.result answer := by
  cases i with
  | settled r => rfl
  | ask name next => exact congrArg next (h name List.mem_cons_self)

end PathMeter.Inquiry

namespace PathMeter.Engine

open PathMeter.Inquiry (LeadsTo LeadsNowhere ofConfig)

variable {config : Config} {identifier : UInt16} {network : Network} {names : NameService}
  {wallClock : Duration → Time.Timestamp}

theorem build_eq_ok_iff {e : Engine} :
    build config identifier network names wallClock = .ok e ↔
      ∃ ip, (ofConfig config).result names.host = .ok ip ∧
        e = ⟨config, identifier, ip, network, names, wallClock⟩ := by
  unfold build
  cases (ofConfig config).result names.host with
  | error fault => simp [Except.map]
  | ok ip => simp [Except.map, eq_comm]

theorem build_eq_error_iff {fault : Fault} :
    build config identifier network names wallClock = .error fault ↔
      (ofConfig config).result names.host = .error fault := by
  unfold build
  cases (ofConfig config).result names.host with
  | error fault' => simp [Except.map]
  | ok ip => simp [Except.map]

/-- What is built probes the address that was found. -/
theorem destination_build :
    (build config identifier network names wallClock).map (·.destination) =
      (ofConfig config).result names.host := by
  unfold build
  cases (ofConfig config).result names.host <;> rfl

/-- **An engine is built exactly where a configuration of use names a target
that leads to an IPv4 address**, and that address is probed.  Everything else
is a fault that says what is wrong: with the configuration first, then with the
target.  The name of the target is its text without the blanks around it; the
name service is asked for nothing else, and only if that is needed.  A fault
comes before anything is sent, whatever the network is. -/
theorem built_exactly (config : Config) (identifier : UInt16) (network : Network)
    (names : NameService) (wallClock : Duration → Time.Timestamp) :
    ∃ name, (∀ text, Text.IsTrimOf text config.target.toList ↔ text = name) ∧
      (∀ e, build config identifier network names wallClock = .ok e ↔
        config.IsUseful name ∧ ∃ ip, LeadsTo name (names.host (String.ofList name)) ip ∧
          e = ⟨config, identifier, ip, network, names, wallClock⟩) ∧
      (∀ fault, build config identifier network names wallClock = .error fault ↔
        config.IsUseless name fault ∨
          config.IsUseful name ∧ LeadsNowhere name (names.host (String.ofList name)) fault) ∧
      (∀ fault, build config identifier network names wallClock = .error fault →
        ∀ other, build config identifier other names wallClock = .error fault) ∧
      (ofConfig config).asked =
        (if config.IsUseful name ∧ IPAddress.ofText? name = none then [String.ofList name]
          else []) ∧
      ∀ other : NameService, (∀ host ∈ (ofConfig config).asked, other.host host = names.host host) →
        (build config identifier network other wallClock).map (·.destination) =
          (build config identifier network names wallClock).map (·.destination) := by
  refine ⟨Text.trim config.target.toList, fun text => Text.isTrimOf_iff, fun e => ?_,
    fun fault => ?_, fun fault h other => ?_, Inquiry.asked_ofConfig rfl, fun other h => ?_⟩
  · simp only [build_eq_ok_iff, Inquiry.result_ofConfig_eq_ok_iff rfl, and_assoc, exists_and_left]
  · rw [build_eq_error_iff, Inquiry.result_ofConfig_eq_error_iff rfl]
  · exact build_eq_error_iff.2 (build_eq_error_iff.1 h)
  · rw [destination_build, destination_build]
    exact Inquiry.result_congr h

end PathMeter.Engine
