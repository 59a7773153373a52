import Mathlib.Data.List.Nodup
import KollaPowerOps.Etcd.Role
import KollaPowerOps.Lib.Rolling

/-!
# Etcd.Quorum

Members that are down while the handlers restart the containers.

Without an upgrade the restarts are spread over the four items of a loop, and the leader is
restarted on its own. In an upgrade every item of the loop restarts every host that was notified,
so the quorum is safe if one host was notified at most.
-/

namespace KollaPowerOps
namespace Etcd

open Linear

variable {H : Type} [DecidableEq H]

/-- A majority of the group is up, and in an upgrade at most one member is down. -/
def QuorumKept (e : Setup H) (s : State H) : Prop :=
  e.etcd.length / 2 + 1 ≤ (e.etcd.filter s.up).length ∧
    (e.action = .upgrade → (e.etcd.filter fun h => !s.up h).length ≤ 1)

/-- So many members may be down. -/
def Tolerates (e : Setup H) (k : Nat) : Prop :=
  e.etcd.length / 2 + 1 + k ≤ e.etcd.length ∧ (e.action = .upgrade → k ≤ 1)

/-- What the handlers find when only restarts were notified. -/
structure OnlyRestarts (e : Setup H) (s : State H) : Prop where
  restart : ∀ h, s.notified .restartContainer h = true → e.differs h = true
  quiet : ∀ topic h, topic ≠ .restartContainer → s.notified topic h = false
  noNew : s.hadVolume false = []
  asked : ∀ h x, s.endpointStatus h = some x → x = (h, e.leader)
  leaders : ∀ h ∈ s.isLeader true, h = e.leader

variable {e : Setup H}

omit [DecidableEq H] in
theorem quorumKept_of_down (hetcd : e.etcd.Nodup) {s : State H} {l : List H}
    (hdown : DownWithin State.up e.etcd l s) (hl : Tolerates e l.length) : QuorumKept e s := by
  have hle := hdown.length_le hetcd
  have hsum := List.length_eq_length_filter_add (l := e.etcd) s.up
  obtain ⟨hquorum, hone⟩ := hl
  refine ⟨by omega, fun hup => ?_⟩
  have := hone hup
  omega

/-- Hosts of one item of the loop. -/
theorem residue_length {l sel : List H} {i : Nat} (hsel : sel.Nodup)
    (hmem : ∀ h ∈ sel, h ∈ l ∧ l.idxOf h % 4 = i) : sel.length ≤ (l.length + 3) / 4 := by
  have hinj : ∀ x ∈ sel, ∀ y ∈ sel, l.idxOf x / 4 = l.idxOf y / 4 → x = y := by
    intro x hx y hy hxy
    obtain ⟨hxl, hxi⟩ := hmem x hx
    obtain ⟨_, hyi⟩ := hmem y hy
    exact (List.idxOf_inj hxl).mp (by omega)
  have hnodup : (sel.map fun h => l.idxOf h / 4).Nodup := List.Nodup.map_on hinj hsel
  have hsub : (sel.map fun h => l.idxOf h / 4) ⊆ List.range ((l.length + 3) / 4) := by
    intro q hq
    obtain ⟨h, hh, rfl⟩ := List.mem_map.mp hq
    have hlt := List.idxOf_lt_length_of_mem (hmem h hh).1
    exact List.mem_range.mpr (by omega)
  have hle := (List.subperm_of_subset hnodup hsub).length_le
  simpa using hle

/-! ## A restart -/

theorem OnlyRestarts.setUp {s : State H} (h : OnlyRestarts e s) (x : H) (b : Bool) :
    OnlyRestarts e (s.setUp x b) := ⟨h.restart, h.quiet, h.noNew, h.asked, h.leaders⟩

/-- Blocks that restart containers, each on few enough hosts. -/
theorem restarts_always (hetcd : e.etcd.Nodup) {hosts : List H} (hhosts : hosts.Nodup)
    {blocks : List (Block H (State H))}
    (hall : ∀ b ∈ blocks, b.tasks = restartServices ∧
      ∀ s, OnlyRestarts e s → Tolerates e (b.selected ⟨hosts, s⟩).length) :
    ∀ {s : State H}, OnlyRestarts e s → DownWithin State.up e.etcd [] s → Tolerates e 0 →
      Always (fun p => QuorumKept e p.state) [] blocks ⟨hosts, s⟩ := by
  induction blocks with
  | nil =>
    intro s _ hup htol
    exact always_nil (quorumKept_of_down hetcd hup htol)
  | cons b blocks ih =>
    intro s hs hup htol
    obtain ⟨htasks, hlen⟩ := hall b List.mem_cons_self
    have hsets : ∀ v, Task.Sets State.up v (OnlyRestarts e)
        ({ run := fun h s => s.setUp h v } : Task H (State H)) :=
      fun v => ⟨⟨fun _ _ => rfl, fun h s hs => hs.setUp h v⟩, fun _ _ => rfl⟩
    have hwaits : ∀ t ∈ [({ run := fun _ s => s } : Task H (State H))],
        t.Waits State.up (OnlyRestarts e) := by
      intro t ht
      rw [List.mem_singleton.mp ht]
      exact ⟨⟨fun _ _ => rfl, fun _ _ hs => hs⟩, fun _ _ => rfl⟩
    refine always_enter ?_
    rw [Block.enter, htasks]
    exact restart_always hhosts (fun h hh => (List.mem_filter.mp hh).1) (hsets false) hwaits
      (hsets true) (fun _ _ _ _ => rfl) hs hup
      (fun s' _ hdown => quorumKept_of_down hetcd hdown (hlen s hs))
      fun s' hs' hup' => ih (fun b' hb' => hall b' (List.mem_cons_of_mem _ hb')) hs' hup' htol

/-- The lookup of the leader finds the leader, or nobody. -/
theorem lookupLeader_always (hetcd : e.etcd.Nodup) {hosts sel : List H} (hhosts : hosts.Nodup)
    {bs : List (Block H (State H))} {s : State H} (hs : OnlyRestarts e s)
    (hup : DownWithin State.up e.etcd [] s) (htol : Tolerates e 0)
    (hrest : ∀ s', OnlyRestarts e s' → DownWithin State.up e.etcd [] s' →
      Always (fun p => QuorumKept e p.state) [] bs ⟨hosts, s'⟩) :
    Always (fun p => QuorumKept e p.state) ((lookupLeader e).map (Task.on · sel)) bs
      ⟨hosts, s⟩ := by
  have hsafe : ∀ s', DownWithin State.up e.etcd [] s' → QuorumKept e s' :=
    fun s' hdown => quorumKept_of_down hetcd hdown htol
  rw [lookupLeader, List.map_cons, List.map_cons, List.map_nil]
  refine always_keep (P := fun s' => OnlyRestarts e s' ∧ DownWithin State.up e.etcd [] s') (fun _ _ => rfl)
    hhosts ⟨hs, hup⟩ ?_ (fun s' h => hsafe s' h.2) fun s₁ h₁ => ?_
  · intro h s' _ hJ
    refine ⟨⟨hJ.1.restart, hJ.1.quiet, hJ.1.noNew, fun x y hy => ?_, hJ.1.leaders⟩, hJ.2⟩
    have hy : Function.update s'.endpointStatus h (some (h, e.leader)) x = some y := hy
    by_cases hxh : x = h
    · rw [hxh, Function.update_self] at hy
      rw [← Option.some.inj hy, hxh]
    · rw [Function.update_of_ne hxh] at hy
      exact hJ.1.asked x y hy
  refine always_keep (P := fun s' => OnlyRestarts e s' ∧ DownWithin State.up e.etcd [] s') (fun _ _ => rfl)
    hhosts h₁ ?_ (fun s' h => hsafe s' h.2) fun s₂ h₂ => hrest s₂ h₂.1 h₂.2
  intro h s' _ hJ
  refine ⟨⟨hJ.1.restart, hJ.1.quiet, hJ.1.noNew, hJ.1.asked, fun x hx => ?_⟩, hJ.2⟩
  rcases Groups.mem_add.mp hx with hx | ⟨hkey, rfl⟩
  · exact hJ.1.leaders x hx
  · obtain ⟨status, hstatus, heq⟩ := (Option.any_eq_true _ _).mp hkey.symm
    rw [hJ.1.asked x status hstatus] at heq
    exact of_decide_eq_true heq

/-! ## The role -/

/-- Restarts are notified one at a time, or it is no upgrade. -/
theorem handlers_always (hetcd : e.etcd.Nodup) (hsize : 3 ≤ e.etcd.length) {hosts : List H}
    (hhosts : hosts.Nodup) (hsub : ∀ h ∈ hosts, h ∈ e.etcd)
    (hcalm : e.action ≠ .upgrade ∨ (hosts.filter e.differs).length ≤ 1) {s : State H}
    (hs : OnlyRestarts e s) (hup : DownWithin State.up e.etcd [] s) :
    Always (fun p => QuorumKept e p.state) [] (handlers e) ⟨hosts, s⟩ := by
  have hone : ∀ k ≤ 1, Tolerates e k := fun k hk => ⟨by omega, fun _ => hk⟩
  have hnone : ∀ {sel : List H}, sel = [] → Tolerates e sel.length := by
    rintro sel rfl
    exact hone 0 (Nat.zero_le 1)
  have hsome : e.action ≠ .upgrade → ∀ k ≤ (e.etcd.length + 3) / 4, Tolerates e k :=
    fun hno k hk => ⟨by omega, fun hyes => absurd hyes hno⟩
  have hskip : ∀ {topic when tasks} {s : State H}, OnlyRestarts e s →
      topic ≠ Topic.restartContainer → (handler [topic] when tasks).selected ⟨hosts, s⟩ = [] := by
    intro topic when tasks s hs htopic
    refine List.filter_eq_nil_iff.mpr fun h _ => ?_
    simp [handler, hs.quiet topic h htopic]
  rw [handlers]
  refine always_skip (hskip hs (by decide)) (always_enter ?_)
  refine lookupLeader_always hetcd hhosts hs hup (hone 0 (by omega)) fun s₁ hs₁ hup₁ => ?_
  refine always_skip (hskip hs₁ (by decide)) ?_
  refine restarts_always hetcd hhosts (fun b hb => ⟨restartHandlers_tasks e hb, fun s hs => ?_⟩)
    hs₁ hup₁ (hone 0 (by omega))
  have hnodup : ∀ s, (b.selected ⟨hosts, s⟩).Nodup := fun s => hhosts.filter _
  rcases List.mem_append.mp hb with hb | hb
  · obtain ⟨_, _, rfl⟩ := List.mem_map.mp hb
    rcases hcalm with hno | hfew
    · exact hnone (List.filter_eq_nil_iff.mpr fun h _ => by simp [handler, hno])
    · refine hone _ (Nat.le_trans (List.Subperm.length_le ?_) hfew)
      refine List.subperm_of_subset (hnodup s) fun h hh => ?_
      obtain ⟨hmem, hsel⟩ := List.mem_filter.mp hh
      simp only [handler, List.any_cons, List.any_nil, Bool.or_false, Bool.and_eq_true] at hsel
      exact List.mem_filter.mpr ⟨hmem, hs.restart h hsel.1⟩
  rcases List.mem_append.mp hb with hb | hb
  · obtain ⟨item, _, rfl⟩ := List.mem_map.mp hb
    by_cases hno : e.action = .upgrade
    · exact hnone (List.filter_eq_nil_iff.mpr fun h _ => by simp [handler, hno])
    · refine hsome hno _ (residue_length (i := item) (hnodup s) fun h hh => ?_)
      obtain ⟨hmem, hsel⟩ := List.mem_filter.mp hh
      simp only [handler, Bool.and_eq_true, beq_iff_eq] at hsel
      exact ⟨hsub h hmem, hsel.2.1.2⟩
  · obtain rfl := List.mem_singleton.mp hb
    refine hone _ ?_
    have hleader : (Block.selected (handler anyTopic (fun s h => (s.isLeader true).contains h)
        restartServices) ⟨hosts, s⟩).Subperm [e.leader] := by
      refine List.subperm_of_subset (hnodup s) fun h hh => ?_
      obtain ⟨_, hsel⟩ := List.mem_filter.mp hh
      simp only [handler, Bool.and_eq_true, List.contains_iff_mem] at hsel
      exact List.mem_singleton.mpr (hs.leaders h hsel.2)
    exact hleader.length_le

theorem checkContainers_keeps {s : State H} (hs : OnlyRestarts e s ∧ DownWithin State.up e.etcd [] s) (h : H) :
    OnlyRestarts e ((checkContainers e).run h s) ∧ DownWithin State.up e.etcd [] ((checkContainers e).run h s) := by
  rw [checkContainers]
  by_cases hdiff : e.differs h = true
  · simp only [hdiff, if_true]
    refine ⟨⟨fun x hx => ?_, fun _ x htopic => Notices.notify_quiet htopic (hs.1.quiet _ x htopic), hs.1.noNew, hs.1.asked, hs.1.leaders⟩,
      hs.2⟩
    rw [State.notified_notify, Notices.notify_iff] at hx
    rcases hx with hx | ⟨_, rfl⟩
    · exact hs.1.restart x hx
    · exact hdiff
  · simp only [hdiff]
    exact hs

omit [DecidableEq H] in
theorem start_onlyRestarts (hvolume : ∀ h ∈ e.etcd, e.volume h = true) (hosts : List H) :
    OnlyRestarts e (start e hosts).state ∧ DownWithin State.up e.etcd [] (start e hosts).state := by
  refine ⟨⟨?_, fun _ _ _ => rfl, rfl, ?_, ?_⟩, fun h hh hdown => ?_⟩
  · intro h hh
    cases hh
  · intro h x hx
    cases hx
  · intro h hh
    cases hh
  · have hdown : e.volume h = false := hdown
    rw [hvolume h hh] at hdown
    cases hdown

/-- Where every host has the volume, nobody bootstraps. -/
theorem lookupCluster_always (hetcd : e.etcd.Nodup) {hosts : List H} (hhosts : hosts.Nodup)
    (hsub : ∀ h ∈ hosts, h ∈ e.etcd) (hvolume : ∀ h ∈ e.etcd, e.volume h = true)
    (htol : Tolerates e 0) {s : State H} (hs : OnlyRestarts e s)
    (hup : DownWithin State.up e.etcd [] s) (hnone : s.hadVolume = .none)
    {bs : List (Block H (State H))}
    (hrest : ∀ s, OnlyRestarts e s → DownWithin State.up e.etcd [] s →
      Always (fun p => QuorumKept e p.state) [] bs ⟨hosts, s⟩) :
    Always (fun p => QuorumKept e p.state) (lookupCluster e ++ determineBootstrap) bs
      ⟨hosts, s⟩ := by
  have hkept : QuorumKept e s := quorumKept_of_down hetcd hup htol
  refine (lookupCluster_leads hhosts hnone fun _ _ _ => hkept).always_append _ _ bs
    (fun _ h => h) ?_
  rintro _ ⟨f, g, found, rfl, hg, hfound⟩
  have hnew : g false = [] := by
    refine List.perm_nil.mp ((hg false).trans (List.Perm.of_eq ?_))
    exact List.filter_eq_nil_iff.mpr fun h hh => by simp [hvolume h (hsub h hh)]
  have hexists : ∀ h ∈ hosts, found h = true := by
    intro h hh
    have hmem : h ∈ g true :=
      (hg true).mem_iff.mpr (List.mem_filter.mpr ⟨hh, by simp [hvolume h (hsub h hh)]⟩)
    exact (hfound h hh).trans (bne_iff_ne.mpr (List.ne_nil_of_mem hmem))
  rw [determineBootstrap]
  refine always_idle (List.filter_eq_nil_iff.mpr fun h hh => by simp [hexists h hh]) ?_
  refine always_idle (List.filter_eq_nil_iff.mpr fun h _ => by simp [hnew]) ?_
  exact hrest _ ⟨hs.restart, hs.quiet, hnew, hs.asked, hs.leaders⟩ hup

/-- Where every host of the group has the volume, the tasks notify restarts only. -/
theorem tasks_always (hetcd : e.etcd.Nodup) {hosts : List H} (hhosts : hosts.Nodup)
    (hsub : ∀ h ∈ hosts, h ∈ e.etcd) (hvolume : ∀ h ∈ e.etcd, e.volume h = true)
    (htol : Tolerates e 0) {bs : List (Block H (State H))}
    (hrest : ∀ s, OnlyRestarts e s → DownWithin State.up e.etcd [] s →
      Always (fun p => QuorumKept e p.state) [] bs ⟨hosts, s⟩) :
    Always (fun p => QuorumKept e p.state) (tasks e) bs (start e hosts) := by
  have hsafe : ∀ s, OnlyRestarts e s ∧ DownWithin State.up e.etcd [] s → QuorumKept e s :=
    fun s hs => quorumKept_of_down hetcd hs.2 htol
  have hstart := start_onlyRestarts hvolume hosts
  have hdeploy : Always (fun p => QuorumKept e p.state)
      (checkContainers e :: (lookupCluster e ++ determineBootstrap)) bs (start e hosts) := by
    refine always_keep (P := fun s => (OnlyRestarts e s ∧ DownWithin State.up e.etcd [] s) ∧
      s.hadVolume = .none) (fun _ _ => rfl) hhosts ⟨hstart, rfl⟩
      (fun h s _ hs =>
        ⟨checkContainers_keeps hs.1 h, (checkContainers_hadVolume e h s).trans hs.2⟩)
      (fun s hs => hsafe s hs.1) fun s hs => ?_
    exact lookupCluster_always hetcd hhosts hsub hvolume htol hs.1.1 hs.1.2 hs.2 hrest
  rw [tasks]
  cases e.action with
  | config => exact hrest _ hstart.1 hstart.2
  | upgrade =>
    exact always_keep (P := fun s => OnlyRestarts e s ∧ DownWithin State.up e.etcd [] s) (fun _ _ => rfl) hhosts
      hstart (fun h s _ hs => checkContainers_keeps hs h) hsafe fun s hs => hrest s hs.1 hs.2
  | deploy => exact hdeploy
  | reconfigure => exact hdeploy

/-- What the handlers of an upgrade find. -/
structure NobodyAsked (s : State H) : Prop where
  quiet : ∀ topic h, topic ≠ .restartContainer → s.notified topic h = false
  noVolumes : s.hadVolume = .none
  noStatus : ∀ h, s.endpointStatus h = none
  noLeader : s.isLeader true = []

omit [DecidableEq H] in
theorem NobodyAsked.skips {s : State H} (hs : NobodyAsked s) {hosts : List H} {topic : Topic}
    {when : State H → H → Bool} {tasks : List (Task H (State H))}
    (htopic : topic ≠ .restartContainer) :
    (handler [topic] when tasks).selected ⟨hosts, s⟩ = [] := by
  refine List.filter_eq_nil_iff.mpr fun h _ => ?_
  simp [handler, hs.quiet topic h htopic]

/-- In an upgrade every host that was notified is restarted by the first item of the loop. -/
theorem upgrade_together (hupgrade : e.action = .upgrade) (hetcd : e.etcd ≠ []) {hosts : List H}
    (hhosts : hosts.Nodup) (h : Throughout e hosts (QuorumKept e)) :
    ∃ s, QuorumKept e s ∧ ∀ x ∈ hosts, e.differs x = true → s.up x = false := by
  rw [Throughout, tasks, hupgrade] at h
  -- the hosts whose container differs are notified
  obtain ⟨s₁, ⟨hs₁, hn₁⟩, h⟩ := h.run (J := fun done s => NobodyAsked s ∧
    ∀ x ∈ done, e.differs x = true → s.notified .restartContainer x = true) (fun _ _ => rfl) hhosts
    ⟨⟨fun _ _ _ => rfl, rfl, fun _ => rfl, rfl⟩, by simp⟩ (by
      rintro done h s _ _ ⟨hs, hn⟩
      rw [checkContainers]
      by_cases hdiff : e.differs h = true
      · simp only [hdiff, if_true]
        refine ⟨⟨fun _ x htopic => Notices.notify_quiet htopic (hs.quiet _ x htopic), hs.noVolumes,
          hs.noStatus, hs.noLeader⟩,
          fun x hx hx' => ?_⟩
        rw [State.notified_notify, Notices.notify_iff]
        rcases List.mem_append.mp hx with hx | hx
        · exact .inl (hn x hx hx')
        · exact .inr ⟨rfl, List.mem_singleton.mp hx⟩
      · simp only [hdiff]
        refine ⟨hs, fun x hx hx' => ?_⟩
        rcases List.mem_append.mp hx with hx | hx
        · exact hn x hx hx'
        · rw [List.mem_singleton.mp hx] at hx'
          exact absurd hx' hdiff)
  have hn₁ : ∀ x ∈ hosts, e.differs x = true → s₁.notified .restartContainer x = true :=
    fun x hx => hn₁ x (List.mem_filter.mpr ⟨hx, rfl⟩)
  rw [handlers] at h
  have h := (h.skip (hs₁.skips (by decide))).enter
  -- nobody has been asked for the leader
  rw [Block.enter] at h
  have h := Always.idle (List.filter_eq_nil_iff.mpr fun x _ => by
    simp [Task.on, hs₁.noVolumes, Groups.none]) h
  obtain ⟨s₂, ⟨hs₂, hn₂⟩, h⟩ := h.run (J := fun _ s => NobodyAsked s ∧
    s.notified = s₁.notified) (fun _ _ => rfl) hhosts ⟨hs₁, rfl⟩ (by
      rintro _ x s _ _ ⟨hs, hn⟩
      refine ⟨⟨hs.quiet, hs.noVolumes, hs.noStatus, ?_⟩, hn⟩
      simp only [Task.on, hs.noStatus x, Option.any_none]
      exact hs.noLeader)
  have h := h.skip (hs₂.skips (by decide))
  obtain ⟨x₀, rest, hcons⟩ := List.exists_cons_of_ne_nil hetcd
  rw [restartHandlers, hcons, List.map_cons, List.cons_append] at h
  have h := h.enter
  obtain ⟨s₃, hs₃, h⟩ := h.run (J := fun done s => ∀ x ∈ done, s.up x = false) (fun _ _ => rfl)
    hhosts (by simp) (by
      intro done y s _ hnot hJ x hx
      have hgoal : (s.setUp y false).up x = false := by
        by_cases hxy : x = y
        · simp [hxy]
        · rw [State.setUp_of_ne s hxy]
          exact hJ x (by simpa [hxy] using hx)
      exact hgoal)
  refine ⟨s₃, h.now, fun x hx hdiff => hs₃ x ?_⟩
  have hsel : x ∈ (handler [.restartContainer] (fun s h => !(s.isLeader true).contains h &&
      e.action == .upgrade) restartServices).selected ⟨hosts, s₂⟩ := by
    refine List.mem_filter.mpr ⟨hx, ?_⟩
    simp [handler, hn₂, hn₁ x hx hdiff, hs₂.noLeader, hupgrade]
  refine List.mem_filter.mpr ⟨hx, ?_⟩
  simp only [Task.on, Bool.and_true]
  exact List.contains_iff_mem.mpr hsel

/-- Three members, all of them to be restarted. -/
def threeMembers (action : KollaAction) : Setup String where
  action := action
  etcd := ["control01", "control02", "control03"]
  hostname := id
  address := id
  volume := fun _ => true
  differs := fun _ => true
  leader := "control01"

theorem upgrade_loses_quorum :
    ¬ ∀ (e : Setup String) (hosts : List String), e.etcd.Nodup → 3 ≤ e.etcd.length →
      hosts.Nodup → (∀ h ∈ hosts, h ∈ e.etcd) → (∀ h ∈ e.etcd, e.volume h = true) →
        Throughout e hosts (QuorumKept e) := by
  intro h
  have hrun := h (threeMembers .upgrade) (threeMembers .upgrade).etcd (by decide) (by decide)
    (by decide) (fun _ h => h) (fun _ _ => rfl)
  obtain ⟨s, hs, hdown⟩ := upgrade_together rfl (by decide) (by decide) hrun
  have hall : ((threeMembers .upgrade).etcd.filter fun h => !s.up h) =
      (threeMembers .upgrade).etcd :=
    List.filter_eq_self.mpr fun x hx => by simp [hdown x hx rfl]
  have hone := hs.2 rfl
  rw [hall] at hone
  exact absurd hone (by decide)

/-- **Quorum.** The handlers keep the quorum, and take down at most one member in an upgrade,
exactly if it is no upgrade or at most one host was notified. -/
theorem quorum_kept_iff (hetcd : e.etcd.Nodup) (hsize : 3 ≤ e.etcd.length) {hosts : List H}
    (hhosts : hosts.Nodup) (hsub : ∀ h ∈ hosts, h ∈ e.etcd)
    (hvolume : ∀ h ∈ e.etcd, e.volume h = true) :
    Throughout e hosts (QuorumKept e) ↔
      e.action ≠ .upgrade ∨ (hosts.filter e.differs).length ≤ 1 := by
  constructor
  · intro h
    by_cases hupgrade : e.action = .upgrade
    · have hne : e.etcd ≠ [] := by
        intro hnil
        simp [hnil] at hsize
      obtain ⟨s, hs, hdown⟩ := upgrade_together hupgrade hne hhosts h
      have hsubperm : (hosts.filter e.differs).Subperm (e.etcd.filter fun h => !s.up h) := by
        refine List.subperm_of_subset (hhosts.filter _) fun x hx => ?_
        obtain ⟨hmem, hdiff⟩ := List.mem_filter.mp hx
        exact List.mem_filter.mpr ⟨hsub x hmem, by simp [hdown x hmem hdiff]⟩
      exact .inr (Nat.le_trans hsubperm.length_le (hs.2 hupgrade))
    · exact .inl hupgrade
  · intro hcalm
    exact tasks_always hetcd hhosts hsub hvolume ⟨by omega, fun _ => Nat.zero_le 1⟩
      fun s hs hup => handlers_always hetcd hsize hhosts hsub hcalm hs hup

theorem quorum_kept_iff_deploy :
    Throughout (threeMembers .deploy) (threeMembers .deploy).etcd
      (QuorumKept (threeMembers .deploy)) :=
  (quorum_kept_iff (by decide) (by decide) (by decide) (fun _ h => h) (fun _ _ => rfl)).mpr
    (.inl (by decide))

end Etcd
end KollaPowerOps
