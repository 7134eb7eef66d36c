import EchoFrame.ProxyInitialize

/-! A communicator whose tasks have run holds exactly the configured clients,
as long as each task meets only what it may touch. -/
namespace EchoFrame
open Verif ClientLoops

theorem ClientLoops.KeepsOthers.reconciled {servant other : String} {loops loops' : ClientLoops}
    (h : KeepsOthers servant loops loops') (hne : other ≠ servant) {config : List ClientConfig}
    (hr : loops.Reconciled other config) : loops'.Reconciled other config where
  named e := (h.holds_iff hne e).trans (hr.named e)
  once := h.once hne hr.once

namespace MyCommunicator
open ServantProxy

variable {hash : String → UInt64}

def latestConfig (servant : String) : Option (List ClientConfig) → CommEvent →
    Option (List ClientConfig)
  | last, .update servantName config => if servantName = servant then some config else last
  | last, _ => last

/-- A proxy has the last configuration and, unless its task is still to run, the
clients for it. -/
structure Consistent (hash : String → UInt64) (s : MyCommunicator) : Prop where
  keyed : Keyed hash s.loops
  once : ∀ servant, s.loops.Once servant
  latest : ∀ (servant : String) (config : List ClientConfig), s.proxys[servant]? = some config →
    s.proxyConfigs[servant]? = some config
  posted : ∀ (servant : String) (config : List ClientConfig), s.proxys[servant]? = some config →
    servant ∈ s.tasks ∨ s.loops.Reconciled servant config

/-- Every task that runs meets only what it may touch. -/
def TaskApart (hash : String → UInt64) (s : MyCommunicator) : CommEvent → Prop
  | .runTask servant fds => ∀ config ∈ s.proxys[servant]?, Apart hash s.loops servant config fds
  | _ => True

instance (s : MyCommunicator) : ∀ event, Decidable (TaskApart hash s event)
  | .runTask servant fds => inferInstanceAs
      (Decidable (∀ config ∈ s.proxys[servant]?, Apart hash s.loops servant config fds))
  | .update _ _ | .getServantProxy _ => .isTrue trivial

/-- A task leaves its servant with the configured clients, keeps the clients of the
others, and changes nothing where its servant has them already. The calls
change no client. -/
def StepReconciles (hash : String → UInt64) (s : MyCommunicator) : CommEvent → Prop
  | .runTask servant fds => ∀ t, s.runTask hash servant fds = some t →
      KeepsOthers servant s.loops t.loops ∧ ∃ config, s.proxys[servant]? = some config ∧
        t.loops.Reconciled servant config ∧
          (s.loops.Reconciled servant config → t.loops = s.loops)
  | event => ∀ t, s.step hash event = some t → t.loops = s.loops

theorem runTask_cases {s t : MyCommunicator} {servant : String} {fds : List UInt32}
    (h : s.runTask hash servant fds = some t) : ∃ config loops,
      s.proxys[servant]? = some config ∧
      initializeTask hash servant config fds s.loops = some loops ∧
      t = { s with loops := loops, tasks := s.tasks.erase servant } := by
  rw [runTask] at h
  split at h
  · obtain ⟨config, hc, h⟩ := Option.bind_eq_some_iff.mp h
    obtain ⟨loops, hl, h⟩ := Option.bind_eq_some_iff.mp h
    exact ⟨config, loops, hc, hl, (Option.some.inj h).symm⟩
  · cases h

theorem consistent_init {n : ℕ} (hn : 0 < n) : Consistent hash (init n) where
  keyed := by
    refine ⟨by rwa [init, Shards.length_empty], ?_⟩
    intro i uid c h
    rw [init, Shards.get?_empty] at h
    cases h
  once := by
    intro servant i uid c i' uid' c' h
    rw [init, Shards.get?_empty] at h
    cases h
  latest servant config h := by simp [init] at h
  posted servant config h := by simp [init] at h

theorem consistent_updateProxy {s : MyCommunicator} {servant : String}
    {config : List ClientConfig} (hk : Keyed hash s.loops) (ho : ∀ other, s.loops.Once other)
    (hl : ∀ (other : String) (c : List ClientConfig), other ≠ servant →
      s.proxys[other]? = some c → s.proxyConfigs[other]? = some c)
    (hp : ∀ (other : String) (c : List ClientConfig), s.proxys[other]? = some c →
      other ∈ s.tasks ∨ s.loops.Reconciled other c)
    (hc : s.proxyConfigs[servant]? = some config) :
    Consistent hash (s.updateProxy servant config) := by
  refine ⟨hk, ho, ?_, ?_⟩
  · intro other c h
    by_cases hs : other = servant
    · subst hs
      rw [updateProxy, Std.ExtTreeMap.getElem?_insert_self] at h
      exact Option.some.inj h ▸ hc
    · rw [updateProxy, Std.ExtTreeMap.getElem?_insert] at h
      exact hl other c hs (by simpa [Ne.symm hs] using h)
  · intro other c h
    by_cases hs : other = servant
    · exact .inl (hs ▸ List.mem_append_right _ List.mem_cons_self)
    · rw [updateProxy, Std.ExtTreeMap.getElem?_insert] at h
      exact (hp other c (by simpa [Ne.symm hs] using h)).imp_left (List.mem_append_left _)

theorem Consistent.update {s : MyCommunicator} (h : Consistent hash s) (servant : String)
    (config : List ClientConfig) : Consistent hash (s.update servant config) := by
  have hsaved (other : String) (c : List ClientConfig) (hne : other ≠ servant)
      (hc : s.proxys[other]? = some c) :
      (s.proxyConfigs.insert servant config)[other]? = some c := by
    rw [Std.ExtTreeMap.getElem?_insert]
    simpa [Ne.symm hne] using h.latest other c hc
  rw [MyCommunicator.update]
  split
  · next hnone =>
    refine ⟨h.keyed, h.once, fun other c hc => hsaved other c ?_ hc, h.posted⟩
    rintro rfl
    exact absurd (hnone.symm.trans hc) nofun
  · exact consistent_updateProxy h.keyed h.once hsaved h.posted
      Std.ExtTreeMap.getElem?_insert_self

theorem Consistent.getServantProxy {s : MyCommunicator} (h : Consistent hash s)
    (servant : String) : Consistent hash (s.getServantProxy servant) := by
  rw [MyCommunicator.getServantProxy]
  split
  · exact h
  · split
    · exact h
    · next config hc =>
      exact consistent_updateProxy h.keyed h.once (fun other c _ => h.latest other c) h.posted hc

theorem Consistent.runTask {s t : MyCommunicator} (h : Consistent hash s) {servant : String}
    {fds : List UInt32} (ha : TaskApart hash s (.runTask servant fds))
    (ht : s.runTask hash servant fds = some t) : Consistent hash t ∧
      StepReconciles hash s (.runTask servant fds) := by
  obtain ⟨config, loops, hc, hl, rfl⟩ := runTask_cases ht
  have hapart := ha config hc
  obtain ⟨hk, hothers, hrec⟩ := initializeTask_reconciles h.keyed (h.once servant) hapart hl
  refine ⟨⟨hk, ?_, h.latest, ?_⟩, ?_⟩
  · intro other
    by_cases hs : other = servant
    · exact hs ▸ hrec.once
    · exact hothers.once hs (h.once other)
  · intro other c hoc
    by_cases hs : other = servant
    · subst hs
      rw [hc] at hoc
      exact .inr (Option.some.inj hoc ▸ hrec)
    · exact (h.posted other c hoc).imp (List.mem_erase_of_ne hs).mpr (hothers.reconciled hs)
  · intro t ht'
    obtain rfl := Option.some.inj (ht.symm.trans ht')
    refine ⟨hothers, config, hc, hrec, ?_⟩
    intro hbefore
    exact Option.some.inj (hl.symm.trans (initializeTask_of_reconciled h.keyed hapart hbefore))

theorem Consistent.step {s t : MyCommunicator} (h : Consistent hash s) {event : CommEvent}
    (ha : TaskApart hash s event) (ht : s.step hash event = some t) : Consistent hash t := by
  cases event with
  | update servant config => exact Option.some.inj ht ▸ h.update servant config
  | getServantProxy servant => exact Option.some.inj ht ▸ h.getServantProxy servant
  | runTask servant fds => exact (h.runTask ha ht).1

theorem Consistent.stepReconciles {s : MyCommunicator} (h : Consistent hash s)
    {event : CommEvent} (ha : TaskApart hash s event) : StepReconciles hash s event := by
  cases event with
  | update servant config =>
    intro t ht
    obtain rfl := Option.some.inj ht
    rw [MyCommunicator.update]
    split <;> rfl
  | getServantProxy servant =>
    intro t ht
    obtain rfl := Option.some.inj ht
    rw [MyCommunicator.getServantProxy]
    split
    · rfl
    · split <;> rfl
  | runTask servant fds => exact fun t ht => (h.runTask ha ht).2 t ht

theorem proxyConfigs_step {s t : MyCommunicator} {event : CommEvent}
    (ht : s.step hash event = some t) (servant : String) :
    t.proxyConfigs[servant]? = latestConfig servant s.proxyConfigs[servant]? event := by
  cases event with
  | update servantName config =>
    have hkeep : t.proxyConfigs = s.proxyConfigs.insert servantName config := by
      obtain rfl := Option.some.inj ht
      rw [MyCommunicator.update]
      split <;> rfl
    rw [hkeep, Std.ExtTreeMap.getElem?_insert, latestConfig]
    simp only [Std.compare_eq_iff_eq]
  | getServantProxy servantName =>
    obtain rfl := Option.some.inj ht
    rw [MyCommunicator.getServantProxy]
    split
    · rfl
    · split <;> rfl
  | runTask servantName fds =>
    obtain ⟨_, _, _, _, rfl⟩ := runTask_cases ht
    rfl

theorem proxyConfigs_run {s t : MyCommunicator} {events : List CommEvent}
    (ht : run (step hash) s events = some t) (servant : String) :
    t.proxyConfigs[servant]? = events.foldl (latestConfig servant) s.proxyConfigs[servant]? := by
  induction events generalizing s with
  | nil => exact Option.some.inj ht ▸ rfl
  | cons event events ih =>
    obtain ⟨u, hu, ht⟩ := run_cons_eq_some.mp ht
    calc t.proxyConfigs[servant]?
        = events.foldl (latestConfig servant) u.proxyConfigs[servant]? := ih ht
      _ = events.foldl (latestConfig servant)
            (latestConfig servant s.proxyConfigs[servant]? event) := by
          rw [proxyConfigs_step hu]

/-- Whenever no task is left, each proxy holds one client for each endpoint of its
latest configuration, and no task on the way touches another servant, if
every task meets only what it may touch. -/
theorem reconciled_of_apart {n : ℕ} (hn : 0 < n) {events : List CommEvent}
    (ha : Along (TaskApart hash) (step hash) (init n) events) :
    (∀ k s, run (step hash) (init n) (events.take k) = some s → s.tasks = [] →
      ∀ servant, s.proxys[servant]?.isSome → ∃ config,
        (events.take k).foldl (latestConfig servant) none = some config ∧
        s.loops.Reconciled servant config) ∧
    Along (StepReconciles hash) (step hash) (init n) events := by
  have hinit : Consistent hash (init n) := consistent_init hn
  constructor
  · intro k s hs hnone servant hp
    have hc := invariant_of_take (fun _ _ _ hc hev => hc.step hev) hinit ha k s hs
    obtain ⟨config, hconfig⟩ := Option.isSome_iff_exists.mp hp
    refine ⟨config, ?_, (hc.posted servant config hconfig).resolve_left ?_⟩
    · rw [← hc.latest servant config hconfig, proxyConfigs_run hs, init]
      simp
    · rw [hnone]
      exact List.not_mem_nil
  · exact along_of_invariant (fun _ _ hc hev => hc.stepReconciles hev)
      (fun _ _ _ hc hev => hc.step hev) hinit ha

def lengthHash (servant : String) : UInt64 := servant.length.toUInt64

def tcpConfig (host : String) : ClientConfig := ⟨host,8888,.kClientTypeTcp,true⟩

def twoServants : List CommEvent :=
  [.update "a" [tcpConfig "h"], .getServantProxy "a", .update "bb" [tcpConfig "h",tcpConfig "k"],
    .getServantProxy "bb", .runTask "bb" [7,8], .runTask "a" [9], .update "bb" [tcpConfig "k"],
    .update "a" [tcpConfig "h"], .runTask "bb" [], .runTask "a" []]

theorem reconciled_of_apart_two_servants :
    (run (step lengthHash) (init 2) twoServants).map MyCommunicator.tasks = some [] ∧
    (∀ s, run (step lengthHash) (init 2) (twoServants.take 10) = some s → s.tasks = [] →
      ∀ servant, s.proxys[servant]?.isSome → ∃ config,
        (twoServants.take 10).foldl (latestConfig servant) none = some config ∧
        s.loops.Reconciled servant config) ∧
    Along (StepReconciles lengthHash) (step lengthHash) (init 2) twoServants := by
  have h := @reconciled_of_apart lengthHash 2 (by decide) twoServants (by decide +kernel)
  exact ⟨by decide +kernel, h.1 10, h.2⟩

def sharedLoop : List CommEvent :=
  [.update "a" [tcpConfig "h"], .getServantProxy "a", .runTask "a" [7],
    .update "bb" [tcpConfig "k"], .getServantProxy "bb", .runTask "bb" [8]]

/-- The task of one servant removes the client of the other. -/
theorem task_removes_client_of_other_servant :
    ∃ s, run (step lengthHash) (init 1) sharedLoop = some s ∧ s.tasks = [] ∧
      s.proxys["a"]? = some [tcpConfig "h"] ∧
      sharedLoop.foldl (latestConfig "a") none = some [tcpConfig "h"] ∧
      ¬s.loops.Reconciled "a" [tcpConfig "h"] := by
  have hrun : (run (step lengthHash) (init 1) sharedLoop).any (fun s => s.tasks = [] ∧
      s.proxys["a"]? = some [tcpConfig "h"] ∧ ¬s.loops.Holds "a" ("h",8888)) = true := by
    decide +kernel
  obtain ⟨s, hs, hprop⟩ := (Option.any_eq_true ..).mp hrun
  obtain ⟨htasks, hproxy, hlost⟩ := of_decide_eq_true hprop
  refine ⟨s, hs, htasks, hproxy, rfl, fun hr => hlost ((hr.named _).mpr ?_)⟩
  decide

/-- On two loops, one servant: the same configuration again adds its client again. -/
example : (run (step fun _ => 0xFFF) (init 2) [.update "a" [tcpConfig "h"], .getServantProxy "a",
    .runTask "a" [7], .update "a" [tcpConfig "h"], .runTask "a" [8]]).map
      (fun s => s.loops.clients.map MyClient.endpoint) = some [("h",8888),("h",8888)] := by
  decide +kernel

end MyCommunicator
end EchoFrame
