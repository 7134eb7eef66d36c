import EchoFrame.RouteAnswers
import Mathlib.Data.List.Range

/-! The servants of a `MyServer`: how they are added and spread over the loops, and what they
ask of the route server while `wait` goes round. -/
namespace EchoFrame
open Verif Std

structure ServantConfig where
  name : List Byte
  host : List Byte
  port : UInt16
  version : UInt32

/-- A servant; `loop` is the index of the loop that its constructor asks for. -/
structure MyServant where
  config : ServantConfig
  loop : ℕ
  registered : Bool := false
  lastSyncTime : UInt32 := 0

/-- `loops` is the number of event loops, and `cur_index_` belongs to their manager. -/
structure MyServer where
  loops : ℕ
  routeServantName : List Byte
  cur_index_ : ℕ := 0
  servantMap : ExtTreeMap (List Byte) MyServant := ∅

def EventLoopManager.getNextLoop (loops cur_index_ : ℕ) : ℕ × ℕ :=
  let cur_index_ := if loops ≤ cur_index_ then 0 else cur_index_
  (cur_index_, cur_index_+1)

inductive RouteRequest
  | register (req : RegisterReq)
  | heartbeat (req : Heartbeat)

/-- What a servant meets in one round: whether there is a proxy for its register request, the
response to it, the clock afterwards, and whether there is a proxy for its heartbeat. -/
structure Report where
  proxy : Bool
  registerRsp : Option RegisterRsp
  now : UInt32
  syncProxy : Bool

/-- A round of `wait`, by the names of the servants. -/
abbrev Round := List Byte → Report

/-- `kNodeStatusOnline` is 0. -/
def ServantConfig.registerReq (config : ServantConfig) : RegisterReq where
  nodeInfo := some ⟨config.host, config.port.toUInt32, [], config.name, 0⟩
  version := config.version

namespace MyServant

/-- The response counts whatever its code is. -/
def registerServant (s : MyServant) (report : Report) : MyServant × List RouteRequest :=
  if report.proxy then
    match report.registerRsp with
    | none => (s, [.register s.config.registerReq])
    | some _ => ({ s with registered := true }, [.register s.config.registerReq])
  else (s, [])

/-- The time of the heartbeat is not kept. -/
def syncServant (s : MyServant) (report : Report) : List RouteRequest :=
  if report.syncProxy then [.heartbeat ⟨s.config.version⟩] else []

def visit (route : List Byte) (report : Report) (s : MyServant) :
    MyServant × List RouteRequest :=
  if route = [] ∨ s.config.name = route then (s, [])
  else
    let asked := if s.registered then (s, []) else s.registerServant report
    (asked.1, asked.2 ++
      if 1 < report.now - asked.1.lastSyncTime then asked.1.syncServant report else [])

end MyServant

namespace MyServer

/-- `addServant`; `initialize` returns 0. -/
def addServant (s : MyServer) (config : ServantConfig) : MyServer :=
  let next := EventLoopManager.getNextLoop s.loops s.cur_index_
  { s with
    cur_index_ := next.2
    servantMap := s.servantMap.insert config.name { config := config, loop := next.1 } }

/-- One round of `wait`: the servants as they are then, and their requests in order. -/
def round (s : MyServer) (round : Round) : MyServer × List RouteRequest :=
  let visit (servant : MyServant) :=
    servant.visit s.routeServantName (round servant.config.name)
  ({ s with servantMap := s.servantMap.map fun _ servant => (visit servant).1 },
    s.servantMap.toList.flatMap fun entry => (visit entry.2).2)

def wait (s : MyServer) : List Round → List (List RouteRequest)
  | [] => []
  | round :: rounds => (s.round round).2 :: (s.round round).1.wait rounds

def started (loops : ℕ) (route : List Byte) (configs : List ServantConfig) : MyServer :=
  configs.foldl addServant { loops := loops, routeServantName := route }

end MyServer

def Report.answered (report : Report) : Bool := report.proxy && report.registerRsp.isSome

/-- What a servant is to send in a round, from the rounds before: a register request until one
has been answered, and a heartbeat; nothing without a route server or as the route server. -/
def ServantConfig.due (route : List Byte) (earlier : List Round) (round : Round)
    (config : ServantConfig) : List RouteRequest :=
  let report := round config.name
  if route = [] ∨ config.name = route then []
  else
    (if report.proxy && !earlier.any (fun r => (r config.name).answered) then
      [.register config.registerReq] else []) ++
    (if 1 < report.now && report.syncProxy then [.heartbeat ⟨config.version⟩] else [])

namespace MyServant

def since (route : List Byte) (earlier : List Round) (s : MyServant) : MyServant :=
  { s with
    registered := !decide (route = [] ∨ s.config.name = route) &&
      earlier.any fun r => (r s.config.name).answered }

theorem since_nil (route : List Byte) {s : MyServant} (hfresh : s.registered = false) :
    s.since route [] = s := by
  unfold since
  rw [List.any_nil, Bool.and_false, ← hfresh]

/-- The register request changes nothing but the flag. -/
theorem asked_eq (s : MyServant) (report : Report) :
    (if s.registered then (s, []) else s.registerServant report) =
      ({ s with registered := s.registered || report.answered },
        if report.proxy && !s.registered then [.register s.config.registerReq] else []) := by
  obtain ⟨config, loop, registered, lastSyncTime⟩ := s
  obtain ⟨proxy, registerRsp, now, syncProxy⟩ := report
  cases registered with
  | true => cases proxy <;> rfl
  | false =>
    cases proxy with
    | false => rfl
    | true => cases registerRsp <;> rfl

/-- A round leaves a servant as its reports until then make it, and it sends what is due. -/
theorem visit_since (route : List Byte) (earlier : List Round) (round : Round) (s : MyServant)
    (hsync : s.lastSyncTime = 0) :
    (s.since route earlier).visit route (round s.config.name) =
      (s.since route (earlier ++ [round]), s.config.due route earlier round) := by
  by_cases hskip : route = [] ∨ s.config.name = route
  · simp [visit, since, ServantConfig.due, hskip]
  · have hsince (rounds : List Round) : s.since route rounds =
        { s with registered := rounds.any fun r => (r s.config.name).answered } := by
      simp [since, hskip]
    have hany : (earlier ++ [round]).any (fun r => (r s.config.name).answered) =
        (earlier.any (fun r => (r s.config.name).answered) ||
          (round s.config.name).answered) := by
      rw [List.any_append, List.any_cons, List.any_nil, Bool.or_false]
    rw [hsince, hsince, hany, visit, if_neg hskip, asked_eq, ServantConfig.due]
    dsimp only
    rw [hsync, UInt32.sub_zero, if_neg hskip]
    by_cases hnow : 1 < (round s.config.name).now
    · simp [syncServant, hnow]
    · simp [hnow]

end MyServant

namespace MyServer

open MyServant

variable {s : MyServer}

/-- The rounds go on from the servants as the rounds before left them. -/
theorem wait_since {base : ExtTreeMap (List Byte) MyServant} (earlier rounds : List Round)
    (hmap : s.servantMap = base.map fun _ servant => servant.since s.routeServantName earlier)
    (hsync : ∀ (name : List Byte) (servant : MyServant), base[name]? = some servant →
      servant.lastSyncTime = 0) (i : ℕ) :
    (s.wait rounds)[i]? = rounds[i]?.map fun round => base.toList.flatMap fun entry =>
      entry.2.config.due s.routeServantName (earlier ++ rounds.take i) round := by
  induction rounds generalizing s earlier i with
  | nil => rfl
  | cons round rounds ih =>
    have hrequests : (s.round round).2 = base.toList.flatMap fun entry =>
        entry.2.config.due s.routeServantName earlier round := by
      dsimp only [MyServer.round]
      rw [hmap, ExtTreeMap.toList_map, List.flatMap_map]
      apply List.flatMap_congr
      intro entry hentry
      have hvisit := visit_since s.routeServantName earlier round entry.2
        (hsync _ _ (ExtTreeMap.mem_toList_iff_getElem?_eq_some.mp hentry))
      exact congrArg Prod.snd hvisit
    have hafter : (s.round round).1.servantMap = base.map fun _ servant =>
        servant.since s.routeServantName (earlier ++ [round]) := by
      apply ExtTreeMap.ext_getElem?
      intro name
      dsimp only [MyServer.round]
      rw [hmap, ExtTreeMap.getElem?_map, ExtTreeMap.getElem?_map, ExtTreeMap.getElem?_map,
        Option.map_map]
      cases hservant : base[name]? with
      | none => rfl
      | some servant =>
        have hvisit := visit_since s.routeServantName earlier round servant (hsync _ _ hservant)
        exact congrArg (fun visited => some visited.1) hvisit
    cases i with
    | zero =>
      rw [wait, List.getElem?_cons_zero, hrequests, List.take_zero, List.append_nil]
      rfl
    | succ i =>
      have hrest := ih (s := (s.round round).1) (earlier ++ [round]) hafter i
      rw [wait, List.getElem?_cons_succ, hrest, List.take_succ_cons, List.append_assoc]
      rfl

/-! The servants that are added, and their loops. -/

theorem routeServantName_started (loops : ℕ) (route : List Byte) (configs : List ServantConfig) :
    (started loops route configs).routeServantName = route ∧
      (started loops route configs).loops = loops := by
  induction configs using List.reverseRecOn with
  | nil => exact ⟨rfl, rfl⟩
  | append_singleton configs config ih =>
    rw [started, List.foldl_append]
    exact ih

theorem started_append (loops : ℕ) (route : List Byte) (configs : List ServantConfig)
    (config : ServantConfig) : started loops route (configs ++ [config]) =
      (started loops route configs).addServant config := by
  rw [started, List.foldl_append]
  rfl

theorem fresh_started (loops : ℕ) (route : List Byte) (configs : List ServantConfig)
    {name : List Byte} {servant : MyServant}
    (h : (started loops route configs).servantMap[name]? = some servant) :
    servant.registered = false ∧ servant.lastSyncTime = 0 := by
  induction configs using List.reverseRecOn with
  | nil =>
    have hnone : (started loops route []).servantMap[name]? = none := ExtTreeMap.getElem?_empty
    rw [hnone] at h
    cases h
  | append_singleton configs config ih =>
    rw [started_append, addServant, ExtTreeMap.getElem?_insert] at h
    split at h
    · cases h
      exact ⟨rfl, rfl⟩
    · exact ih h

/-- Where the turn is after some servants. -/
theorem cur_index_started {loops : ℕ} (hloops : 0 < loops) (route : List Byte)
    (configs : List ServantConfig) : (started loops route configs).cur_index_ ≤ loops ∧
      (EventLoopManager.getNextLoop loops (started loops route configs).cur_index_).1 =
        configs.length%loops := by
  induction configs using List.reverseRecOn with
  | nil =>
    refine ⟨Nat.zero_le _, ?_⟩
    rw [List.length_nil, Nat.zero_mod]
    exact if_neg (Nat.not_le.mpr hloops)
  | append_singleton configs config ih =>
    have hloops' := (routeServantName_started loops route configs).2
    have hnext : (started loops route (configs ++ [config])).cur_index_ =
        configs.length%loops+1 := by
      rw [started_append, addServant, ← ih.2, hloops']
      rfl
    have hlt := Nat.mod_lt configs.length hloops
    have hmod : (configs.length+1)%loops = (configs.length%loops+1)%loops := by
      rw [Nat.mod_add_mod]
    rw [hnext, List.length_append, List.length_singleton, hmod]
    refine ⟨hlt, ?_⟩
    dsimp only [EventLoopManager.getNextLoop]
    split
    · next hend =>
      have hfull : configs.length%loops+1 = loops := Nat.le_antisymm hlt hend
      rw [hfull, Nat.mod_self]
    · next hinside =>
      exact (Nat.mod_eq_of_lt (Nat.not_le.mp hinside)).symm

/-- The servant under a name is the one added last with it, on the loop whose turn it was. -/
theorem servantMap_started_iff {loops : ℕ} (hloops : 0 < loops) (route : List Byte)
    (configs : List ServantConfig) (name : List Byte) (servant : MyServant) :
    (started loops route configs).servantMap[name]? = some servant ↔
      ∃ i config, configs[i]? = some config ∧ config.name = name ∧
        (∀ j later, i < j → configs[j]? = some later → later.name ≠ name) ∧
        servant = { config := config, loop := i%loops } := by
  induction configs using List.reverseRecOn with
  | nil =>
    have hnone : (started loops route []).servantMap[name]? = none := ExtTreeMap.getElem?_empty
    simp [hnone]
  | append_singleton configs config ih =>
    have hloops' := (routeServantName_started loops route configs).2
    have hloop := (cur_index_started hloops route configs).2
    have hlast : (configs ++ [config])[configs.length]? = some config := by
      rw [List.getElem?_append_right (Nat.le_refl _), Nat.sub_self]
      rfl
    have hbefore {i : ℕ} (hi : i < configs.length) : (configs ++ [config])[i]? = configs[i]? :=
      List.getElem?_append_left hi
    have hlt {i : ℕ} {c : ServantConfig} (hc : (configs ++ [config])[i]? = some c) :
        i < configs.length ∨ i = configs.length := by
      have hlength := (List.getElem?_eq_some_iff.mp hc).1
      rw [List.length_append, List.length_singleton] at hlength
      omega
    rw [started_append, addServant, ExtTreeMap.getElem?_insert, hloops', hloop]
    by_cases hname : config.name = name
    · rw [if_pos (Std.compare_eq_iff_eq.mpr hname), Option.some.injEq]
      constructor
      · rintro rfl
        refine ⟨configs.length, config, hlast, hname, ?_, rfl⟩
        intro j later hj hlater
        rcases hlt hlater with hj' | hj' <;> omega
      · rintro ⟨i, c, hc, hsame, hnone, rfl⟩
        rcases hlt hc with hi | rfl
        · exact absurd hname (hnone _ _ hi hlast)
        · rw [hlast] at hc
          cases hc
          rfl
    · rw [if_neg fun heq => hname (Std.compare_eq_iff_eq.mp heq), ih]
      constructor
      · rintro ⟨i, c, hc, hsame, hnone, hservant⟩
        have hi := (List.getElem?_eq_some_iff.mp hc).1
        refine ⟨i, c, (hbefore hi).trans hc, hsame, ?_, hservant⟩
        intro j later hj hlater
        rcases hlt hlater with hj' | rfl
        · exact hnone j later hj ((hbefore hj').symm.trans hlater)
        · rw [hlast] at hlater
          cases hlater
          exact hname
      · rintro ⟨i, c, hc, hsame, hnone, hservant⟩
        rcases hlt hc with hi | rfl
        · refine ⟨i, c, (hbefore hi).symm.trans hc, hsame, ?_, hservant⟩
          intro j later hj hlater
          have hj' := (List.getElem?_eq_some_iff.mp hlater).1
          exact hnone j later hj ((hbefore hj').trans hlater)
        · rw [hlast] at hc
          cases hc
          exact absurd hsame hname

/-- Three servants on two loops, the first one replaced by the third. -/
theorem servantMap_started_replaced :
    let config (name : Byte) (version : UInt32) : ServantConfig := ⟨[name], [], 8888, version⟩
    (started 2 [] [config 97 1, config 98 1, config 97 2]).servantMap[[(97 : Byte)]]? =
      some { config := config 97 2, loop := 0 } := by
  intro config
  apply (servantMap_started_iff Nat.two_pos [] _ [97] _).mpr
  refine ⟨2, config 97 2, rfl, rfl, ?_, rfl⟩
  intro j later hj hlater
  have hlength := (List.getElem?_eq_some_iff.mp hlater).1
  exact absurd hlength (Nat.not_lt.mpr hj)

/-- The requests of every round: what is due to each servant, in the order of their names. -/
theorem wait_requests (loops : ℕ) (route : List Byte) (configs : List ServantConfig)
    (rounds : List Round) (i : ℕ) :
    ((started loops route configs).wait rounds)[i]? = rounds[i]?.map fun round =>
      (started loops route configs).servantMap.toList.flatMap fun entry =>
        entry.2.config.due route (rounds.take i) round := by
  have hroute := (routeServantName_started loops route configs).1
  have hfresh := @fresh_started loops route configs
  have hmap : (started loops route configs).servantMap =
      (started loops route configs).servantMap.map fun _ servant => servant.since
        (started loops route configs).routeServantName [] := by
    apply ExtTreeMap.ext_getElem?
    intro name
    rw [ExtTreeMap.getElem?_map]
    cases hservant : (started loops route configs).servantMap[name]? with
    | none => rfl
    | some servant => exact congrArg some (since_nil _ (hfresh hservant).1).symm
  have hall := wait_since [] rounds hmap (fun _ _ hservant => (hfresh hservant).2) i
  rw [hroute, List.nil_append] at hall
  exact hall

end MyServer

end EchoFrame
