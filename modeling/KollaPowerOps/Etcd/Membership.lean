import KollaPowerOps.Etcd.Role

/-!
# Etcd.Membership

New members of an etcd cluster that exists.

All of them are registered by the first task of the bootstrap, and each is then started with the
members that had a volume before and itself: the two agree exactly if there is one new member.
-/

namespace KollaPowerOps
namespace Etcd

open Linear

variable {H : Type} [DecidableEq H]

/-- A member that joins an existing cluster is started with the members registered there. -/
def Joins (s : State H) : Prop :=
  ∀ b ∈ s.bootstrapped, b.initialClusterState = .existing → b.initialCluster.Perm b.registered

/-- The hosts whose volume existed, or did not. -/
def Setup.divided (e : Setup H) (key : Bool) : List H := e.etcd.filter fun h => e.volume h == key

/-! ## Up to the handlers -/

/-- The cluster has not been looked up. -/
structure Fresh (e : Setup H) (s : State H) : Prop where
  noCluster : ∀ h, s.notified .bootstrapCluster h = false
  members : s.members = (e.divided true).map e.member
  none : s.bootstrapped = []

/-- The hosts are divided by their volumes. -/
structure Divided (e : Setup H) (s : State H) : Prop extends Fresh e s where
  hadVolume : ∀ key, (s.hadVolume key).Perm (e.divided key)

variable {e : Setup H} {s : State H}

omit [DecidableEq H] in
theorem Divided.same {s' : State H} (hs : Divided e s) (hnotified : s'.notified = s.notified)
    (hmembers : s'.members = s.members) (hboot : s'.bootstrapped = s.bootstrapped)
    (hvolume : s'.hadVolume = s.hadVolume) : Divided e s' where
  noCluster := hnotified ▸ hs.noCluster
  members := hmembers ▸ hs.members
  none := hboot ▸ hs.none
  hadVolume := hvolume ▸ hs.hadVolume

omit [DecidableEq H] in
theorem start_fresh (hosts : List H) : Fresh e (start e hosts).state := by
  refine ⟨fun _ => rfl, ?_, rfl⟩
  simp [start, Setup.divided]

theorem Fresh.notify (hs : Fresh e s) {topic : Topic} (htopic : topic ≠ .bootstrapCluster) (x : H) :
    Fresh e (s.notify topic x) := by
  exact ⟨fun h => Notices.notify_quiet htopic.symm (hs.noCluster h), hs.members, hs.none⟩

theorem Fresh.checkContainers (hs : Fresh e s) (h : H) : Fresh e ((checkContainers e).run h s) := by
  rw [Etcd.checkContainers]
  by_cases hdiff : e.differs h = true
  · simp only [hdiff, if_true]
    exact hs.notify (by decide) h
  · simp only [hdiff]
    exact hs

/-- What the bootstrap of new services finds. -/
structure Ready (e : Setup H) (p : Play H (State H)) : Prop where
  active : p.active = e.etcd
  divided : Divided e p.state
  services : ∀ h ∈ e.etcd, p.state.notified .bootstrapServices h = true

theorem lookup_divides (hetcd : e.etcd.Nodup) (hold : e.divided true ≠ []) (hs : Fresh e s)
    (hnone : s.hadVolume = .none) :
    Leads (fun s => s.bootstrapped = []) (lookupCluster e) ⟨e.etcd, s⟩ fun p =>
      p.active = e.etcd ∧ Divided e p.state ∧ ∀ h ∈ e.etcd, p.state.clusterExists h = true := by
  refine (lookupCluster_leads hetcd hnone fun _ _ _ => hs.none).mono ?_
  rintro _ ⟨f, g, found, rfl, hg, hfound⟩
  refine ⟨rfl, ⟨⟨hs.noCluster, hs.members, hs.none⟩, hg⟩, fun h hh => ?_⟩
  have hne : g true ≠ [] := by
    intro hnil
    have hperm := hg true
    rw [hnil] at hperm
    exact hold (List.nil_perm.mp hperm)
  exact (hfound h hh).trans (bne_iff_ne.mpr hne)

theorem determineBootstrap_leads (hetcd : e.etcd.Nodup) (hnew : e.divided false ≠ [])
    (hs : Divided e s) (hexists : ∀ h ∈ e.etcd, s.clusterExists h = true) :
    Leads (fun s => s.bootstrapped = []) determineBootstrap ⟨e.etcd, s⟩ (Ready e) := by
  rw [determineBootstrap]
  refine leads_idle (List.filter_eq_nil_iff.mpr fun h hh => by simp [hexists h hh]) ?_
  refine leads_run (J := fun done s => Divided e s ∧
    ∀ h ∈ done, s.notified .bootstrapServices h = true) (fun _ _ => rfl) hetcd ⟨hs, by simp⟩ ?_
    (fun _ _ hJ => hJ.1.none) fun done s' hperm hJ => leads_nil ⟨rfl, hJ.1, fun h hh => ?_⟩
  · intro done h s _ _ hJ
    refine ⟨⟨hJ.1.toFresh.notify (by decide) h, hJ.1.hadVolume⟩, fun x hx => ?_⟩
    rw [State.notified_notify, Notices.notify_iff]
    rcases List.mem_append.mp hx with hx | hx
    · exact .inl (hJ.2 x hx)
    · exact .inr ⟨rfl, List.mem_singleton.mp hx⟩
  · refine hJ.2 h (hperm.mem_iff.mpr (List.mem_filter.mpr ⟨hh, ?_⟩))
    have hne : s.hadVolume false ≠ [] := by
      intro hnil
      have hperm := hs.hadVolume false
      rw [hnil] at hperm
      exact hnew (List.nil_perm.mp hperm)
    simp [hexists h hh, hne]

/-- The tasks divide the hosts and notify the bootstrap of new services. -/
theorem tasks_leads (haction : e.action = .deploy ∨ e.action = .reconfigure) (hetcd : e.etcd.Nodup)
    (hold : e.divided true ≠ []) (hnew : e.divided false ≠ []) :
    Leads (fun s => s.bootstrapped = []) (tasks e) (start e e.etcd) (Ready e) := by
  have htasks : tasks e = checkContainers e :: (lookupCluster e ++ determineBootstrap) := by
    rcases haction with h | h <;> rw [tasks, h]
  rw [htasks]
  refine leads_run (J := fun _ s => Fresh e s ∧ s.hadVolume = .none) (fun _ _ => rfl) hetcd
    ⟨start_fresh e.etcd, rfl⟩ (fun _ h s _ _ hJ =>
      ⟨hJ.1.checkContainers h, (checkContainers_hadVolume e h s).trans hJ.2⟩)
    (fun _ _ hJ => hJ.1.none) fun _ s _ hJ => ?_
  refine leads_append (lookup_divides hetcd hold hJ.1 hJ.2) ?_
  rintro ⟨_, s'⟩ ⟨rfl, hdivided, hexists⟩
  exact determineBootstrap_leads hetcd hnew hdivided hexists

/-! ## The handlers -/

theorem lookupLeader_leads (hetcd : e.etcd.Nodup) (sel : List H) {p : Play H (State H)}
    (hp : Ready e p) : Leads (fun s => s.bootstrapped = [])
      ((lookupLeader e).map (Task.on · sel)) p (Ready e) := by
  obtain ⟨active, s⟩ := p
  obtain ⟨rfl, hs, hservices⟩ := hp
  rw [lookupLeader, List.map_cons, List.map_cons, List.map_nil]
  refine leads_run (J := fun _ s => Ready e ⟨e.etcd, s⟩) (fun _ _ => rfl) hetcd
    ⟨rfl, hs, hservices⟩
    (fun _ _ _ _ _ hJ => ⟨rfl, hJ.divided.same rfl rfl rfl rfl, hJ.services⟩)
    (fun _ _ hJ => hJ.divided.none) fun _ _ _ hJ₁ => ?_
  exact leads_run (J := fun _ s => Ready e ⟨e.etcd, s⟩) (fun _ _ => rfl) hetcd hJ₁
    (fun _ _ _ _ _ hJ => ⟨rfl, hJ.divided.same rfl rfl rfl rfl, hJ.services⟩)
    (fun _ _ hJ => hJ.divided.none) fun _ _ _ hJ₂ => leads_nil hJ₂

/-- The containers are started with the old members and the new one, when all are registered. -/
def StartedTogether (e : Setup H) (s : State H) : Prop :=
  ∀ b ∈ s.bootstrapped, b.initialClusterState = .existing ∧ b.host ∈ e.divided false ∧
    b.initialCluster.Perm ((e.divided true ++ [b.host]).map e.member) ∧
      b.registered.Perm ((e.divided true ++ e.divided false).map e.member)

theorem bootstrapServices_leads (hetcd : e.etcd.Nodup) (hnew : e.divided false ≠ []) {sel : List H}
    (hsel : sel.Perm (e.divided false)) {p : Play H (State H)} (hp : Ready e p) :
    Leads (StartedTogether e) ((bootstrapServices e).map (Task.on · sel)) p
      fun q => q.active = e.etcd ∧ StartedTogether e q.state ∧ q.state.bootstrapped ≠ [] := by
  obtain ⟨active, s⟩ := p
  obtain ⟨rfl, hs, _⟩ := hp
  have hselected : ∀ {t : Task H (State H)} {s : State H}, (∀ s h, t.when s h = true) →
      ((t.on sel).selected ⟨e.etcd, s⟩).Perm (e.divided false) := by
    intro t s hwhen
    refine (List.perm_ext_iff_of_nodup (hetcd.filter _) (hetcd.filter _)).mpr fun h => ?_
    simp only [Task.on, hwhen, Bool.and_true, List.mem_filter, List.contains_iff_mem]
    constructor
    · intro hh
      exact List.mem_filter.mp (hsel.mem_iff.mp hh.2)
    · intro hh
      exact ⟨hh.1, hsel.mem_iff.mpr (List.mem_filter.mpr hh)⟩
  have hnone : ∀ {s : State H}, s.bootstrapped = [] → StartedTogether e s := by
    intro s hs b hb
    rw [hs] at hb
    cases hb
  rw [bootstrapServices, List.map_cons, List.map_cons, List.map_cons, List.map_nil]
  -- the new members are registered, all of them
  refine leads_run (J := fun done s => s.bootstrapped = [] ∧
    (s.hadVolume true).Perm (e.divided true) ∧
    s.members = (e.divided true ++ done).map e.member) (fun _ _ => rfl) hetcd
    ⟨hs.none, hs.hadVolume true, by rw [hs.members, List.append_nil]⟩ ?_
    (fun _ _ hJ => hnone hJ.1) fun done₁ s₁ hperm₁ hJ₁ => ?_
  · intro done h s _ _ hJ
    refine ⟨hJ.1, hJ.2.1, ?_⟩
    have hmembers : s.members ++ [e.member h] = (e.divided true ++ (done ++ [h])).map e.member := by
      rw [hJ.2.2]
      simp
    exact hmembers
  have hregistered : s₁.members.Perm ((e.divided true ++ e.divided false).map e.member) := by
    rw [hJ₁.2.2]
    exact ((hperm₁.trans (hselected fun _ _ => rfl)).append_left _).map _
  -- they are started with the volumes found before
  refine leads_run (J := fun done s => StartedTogether e s ∧ s.members = s₁.members ∧
    (s.hadVolume true).Perm (e.divided true) ∧ (done ≠ [] → s.bootstrapped ≠ []))
    (fun _ _ => rfl) hetcd ⟨hnone hJ₁.1, rfl, hJ₁.2.1, by simp⟩ ?_
    (fun _ _ hJ => hJ.1) fun done₂ s₂ hperm₂ hJ₂ => ?_
  · intro done h s hh _ hJ
    refine ⟨fun b hb => ?_, hJ.2.1, hJ.2.2.1, fun _ => List.append_ne_nil_of_right_ne_nil _
      (List.cons_ne_nil _ _)⟩
    rcases List.mem_append.mp hb with hb | hb
    · exact hJ.1 b hb
    · rw [List.mem_singleton.mp hb]
      refine ⟨rfl, (hselected fun _ _ => rfl).mem_iff.mp hh, ?_, ?_⟩
      · rw [bootstrapServiceMembers, List.map_append]
        exact (hJ.2.2.1.map _).append_right _
      · rw [hJ.2.1]
        exact hregistered
  have hstarted : s₂.bootstrapped ≠ [] := by
    refine hJ₂.2.2.2 fun hnil => ?_
    rw [hnil] at hperm₂
    exact hnew (List.nil_perm.mp (hperm₂.trans (hselected fun _ _ => rfl)))
  exact leads_run (J := fun _ s => StartedTogether e s ∧ s.bootstrapped ≠ []) (fun _ _ => rfl)
    hetcd ⟨hJ₂.1, hstarted⟩ (fun _ _ _ _ _ hJ => hJ) (fun _ _ hJ => hJ.1)
    fun _ _ _ hJ₃ => leads_nil ⟨rfl, hJ₃⟩

/-- The restarts that follow start no container with a bootstrap environment. -/
theorem restartServices_keeps {t : Task H (State H)} (ht : t ∈ restartServices) :
    t.Keeps (StartedTogether e) := by
  simp only [restartServices, List.mem_cons, List.not_mem_nil, or_false] at ht
  rcases ht with rfl | rfl | rfl <;> exact ⟨fun _ _ => rfl, fun _ _ hs => hs⟩

/-- The role up to the start of the new members, which there is if there are any. -/
theorem started_together (haction : e.action = .deploy ∨ e.action = .reconfigure)
    (hetcd : e.etcd.Nodup) (hold : e.divided true ≠ []) (hnew : e.divided false ≠ []) :
    Throughout e e.etcd (StartedTogether e) ∧
      ∀ Safe, Throughout e e.etcd Safe → ∃ s, Safe s ∧ StartedTogether e s ∧ s.bootstrapped ≠ [] := by
  have hnone : ∀ s : State H, s.bootstrapped = [] → StartedTogether e s := by
    intro s hs b hb
    rw [hs] at hb
    cases hb
  have hskip : ∀ {p : Play H (State H)}, Ready e p → (handler [.bootstrapCluster]
      (fun _ _ => e.action != .config) (bootstrapCluster e)).selected p = [] := by
    intro p hp
    exact List.filter_eq_nil_iff.mpr fun h _ => by simp [handler, hp.divided.noCluster h]
  have hselected : ∀ {p : Play H (State H)}, Ready e p → ((handler [.bootstrapServices]
      (fun s h => s.hadVolume false != [] && (s.hadVolume false).contains h && e.action != .config)
      (bootstrapServices e)).selected p).Perm (e.divided false) := by
    rintro ⟨active, s⟩ ⟨rfl, hs, hservices⟩
    have hservices : ∀ h ∈ e.etcd, s.notified .bootstrapServices h = true := hservices
    have hfalse := hs.hadVolume false
    refine (List.perm_ext_iff_of_nodup (hetcd.filter _) (hetcd.filter _)).mpr fun h => ?_
    constructor
    · intro hh
      obtain ⟨_, hsel⟩ := List.mem_filter.mp hh
      simp only [handler, Bool.and_eq_true, List.contains_iff_mem] at hsel
      exact hfalse.mem_iff.mp hsel.2.1.2
    · intro hh
      obtain ⟨hmem, _⟩ := List.mem_filter.mp hh
      have hin : h ∈ s.hadVolume false := hfalse.mem_iff.mpr hh
      refine List.mem_filter.mpr ⟨hmem, ?_⟩
      have haction : e.action ≠ .config := by
        rcases haction with h | h <;> simp [h]
      simp [handler, hservices h hmem, hin, List.ne_nil_of_mem hin, haction]
  have htasks := tasks_leads haction hetcd hold hnew
  constructor
  · refine htasks.always hnone fun p₀ h₀ => always_skip (hskip h₀) (always_enter ?_)
    refine (lookupLeader_leads hetcd _ h₀).always hnone fun p₁ h₁ => always_enter ?_
    refine (bootstrapServices_leads hetcd hnew (hselected h₁) h₁).always (fun _ h => h)
      fun p₂ h₂ => ?_
    exact always_blocks (h₂.1 ▸ hetcd) (fun _ h => h)
      (fun b hb t ht => restartServices_keeps (by rwa [restartHandlers_tasks e hb] at ht)) h₂.2.1
  · intro Safe h
    obtain ⟨p₀, h₀, h⟩ := htasks.exists_run h
    obtain ⟨p₁, h₁, h⟩ := (lookupLeader_leads hetcd _ h₀).exists_run (h.skip (hskip h₀)).enter
    obtain ⟨p₂, h₂, h⟩ :=
      (bootstrapServices_leads hetcd hnew (hselected h₁) h₁).exists_run h.enter
    exact ⟨p₂.state, h.now, h₂.2⟩

omit [DecidableEq H] in
/-- The lists a new member is started with have the same length for one new member only. -/
theorem sole_of_joins (hstarted : StartedTogether e s) (hne : s.bootstrapped ≠ [])
    (hjoins : Joins s) : (e.divided false).length = 1 := by
  obtain ⟨b, hb⟩ := List.exists_mem_of_ne_nil _ hne
  obtain ⟨hexisting, _, hlisted, hregistered⟩ := hstarted b hb
  have hlen := ((hlisted.symm.trans (hjoins b hb hexisting)).trans hregistered).length_eq
  simp only [List.length_map, List.length_append, List.length_singleton] at hlen
  omega

/-- Two members exist, and two hosts are new. -/
def fourMembers : Setup String where
  action := .deploy
  etcd := ["control01", "control02", "control03", "control04"]
  hostname := id
  address := id
  volume h := h == "control01" || h == "control02"
  differs := fun _ => true
  leader := "control01"

theorem new_members_disagree :
    ¬ ∀ e : Setup String, e.action = .deploy ∨ e.action = .reconfigure → e.etcd.Nodup →
      e.divided true ≠ [] → e.divided false ≠ [] → Throughout e e.etcd Joins := by
  intro h
  have hrun := h fourMembers (.inl rfl) (by decide) (by decide) (by decide)
  obtain ⟨_, hsome⟩ : Throughout fourMembers fourMembers.etcd (StartedTogether fourMembers) ∧ _ :=
    started_together (.inl rfl) (by decide) (by decide) (by decide)
  obtain ⟨s, hjoins, hstarted, hne⟩ := hsome _ hrun
  exact absurd (sole_of_joins hstarted hne hjoins) (by decide)

/-- **Membership.** Every new member is started with the members registered in the cluster exactly
if there is one new member. -/
theorem joins_iff (haction : e.action = .deploy ∨ e.action = .reconfigure) (hetcd : e.etcd.Nodup)
    (hold : e.divided true ≠ []) (hnew : e.divided false ≠ []) :
    Throughout e e.etcd Joins ↔ (e.divided false).length = 1 := by
  obtain ⟨halways, hsome⟩ := started_together haction hetcd hold hnew
  constructor
  · intro h
    obtain ⟨s, hjoins, hstarted, hne⟩ := hsome _ h
    exact sole_of_joins hstarted hne hjoins
  · intro hone m hm b hb _
    obtain ⟨_, hmem, hlisted, hregistered⟩ := halways m hm b hb
    obtain ⟨h, hsole⟩ := List.length_eq_one_iff.mp hone
    rw [hsole] at hmem hregistered
    rw [List.mem_singleton.mp hmem] at hlisted
    exact hlisted.trans hregistered.symm

/-- `control04` is the only new host. -/
theorem joins_iff_one :
    Throughout { fourMembers with volume := fun h => h != "control04" } fourMembers.etcd Joins :=
  (joins_iff (e := { fourMembers with volume := fun h => h != "control04" }) (.inl rfl) (by decide)
    (by decide) (by decide)).mpr (by decide)

end Etcd
end KollaPowerOps
