import KollaPowerOps.Mariadb.Role

/-!
# Mariadb.Bootstrap

Which hosts start a new cluster.

Whether the cluster of a shard exists is read off the hosts of the play, the host that bootstraps it
is the first of the whole shard. So a new cluster is started beside data that no host of the play
has, and only then.
-/

namespace KollaPowerOps
namespace Mariadb

open Linear

variable {H S : Type} [DecidableEq H] [DecidableEq S]

/-- Of a shard at most one host starts a new cluster, and no host of the shard has the volume. -/
def NoSecondCluster (e : Setup H S) (s : State H S) : Prop :=
  (∀ h ∈ s.newCluster, ∀ x ∈ s.newCluster, e.shard x = e.shard h → x = h) ∧
    ∀ h ∈ s.newCluster, ∀ x ∈ e.mariadb, e.shard x = e.shard h → e.volume x = false

/-- The hosts of the shard that take part and are alive answer that they are synced. -/
def SyncedShard (e : Setup H S) (hosts : List H) (k : S) : Prop :=
  ∀ x ∈ hosts, e.shard x = k → e.alive x = true → e.wsrep x = some "Synced"

/-- The host takes part and is the first of its shard, of which no host that takes part has the
volume. -/
structure Boots (e : Setup H S) (hosts : List H) (h : H) : Prop where
  mem : h ∈ hosts
  first : (e.members (e.shard h)).head? = some h
  noVolume : ∀ x ∈ hosts, e.shard x = e.shard h → e.volume x = false
  synced : SyncedShard e hosts (e.shard h)

variable {e : Setup H S} {hosts : List H}

/-! ## The lookup -/

/-- No host has been told to start a new cluster. -/
structure Quiet (s : State H S) : Prop where
  quiet : ∀ h, s.notified .bootstrapCluster h = false
  noNew : s.newCluster = []

/-- The cluster of its shard exists, as the host finds it. -/
def Found (e : Setup H S) (hosts : List H) (found : H → Bool) : Prop :=
  ∀ h ∈ hosts, (found h = true ↔ ∃ x ∈ hosts, e.shard x = e.shard h ∧ e.volume x = true)

/-- The play after the lookup. -/
structure LookedUp (e : Setup H S) (hosts : List H) (p : Play H (State H S)) : Prop
    extends Quiet p.state where
  sub : ∀ h ∈ p.active, h ∈ hosts
  nodup : p.active.Nodup
  found : Found e hosts p.state.clusterExists
  stays : ∀ h ∈ hosts, p.state.clusterExists h = false →
    (h ∈ p.active ↔ SyncedShard e hosts (e.shard h))

omit [DecidableEq S] in
theorem checkContainers_leads (hhosts : hosts.Nodup) :
    Leads Quiet [checkContainers e] (startPlay e hosts) fun p =>
      ∃ n, p = ⟨hosts, { notified := n, up := e.alive }⟩ ∧ ∀ h, n .bootstrapCluster h = false := by
  refine leads_run (J := fun _ s => ∃ n, s = ({ notified := n, up := e.alive } : State H S) ∧
    ∀ h, n .bootstrapCluster h = false) (fun _ _ => rfl) hhosts ⟨.none, rfl, fun _ => rfl⟩ ?_ ?_
    ?_
  · rintro _ h _ - - ⟨n, rfl, hn⟩
    simp only [checkContainers]
    by_cases hdiff : e.differs h = true
    · rw [if_pos hdiff]
      exact ⟨_, rfl, fun x => Notices.notify_quiet (by decide) (hn x)⟩
    · rw [if_neg hdiff]
      exact ⟨n, rfl, hn⟩
  · rintro _ _ ⟨n, rfl, hn⟩
    exact ⟨hn, rfl⟩
  · rintro _ _ - ⟨n, rfl, hn⟩
    exact leads_nil ⟨n, rfl, hn⟩

theorem lookupVolumes_leads (hhosts : hosts.Nodup) {s : State H S} (hs : Quiet s)
    (hvolume : s.hadVolume = .none) :
    Leads Quiet (lookupVolumes e) ⟨hosts, s⟩ fun p => ∃ f g found, p = ⟨hosts,
      { s with volumeChanged := f, hadVolume := g, clusterExists := found }⟩ ∧
        Found e hosts found := by
  rw [lookupVolumes]
  refine leads_register (w := fun f => { s with volumeChanged := f }) (v := fun h => !e.volume h)
    (fun _ _ => rfl) hhosts rfl (fun _ _ _ => rfl) (fun _ _ => ⟨hs.quiet, hs.noNew⟩) fun f hf _ => ?_
  rw [Task.selected_all _ fun _ _ => rfl] at hf
  refine leads_group (w := fun g => { s with volumeChanged := f, hadVolume := g })
    (k := fun h => (e.shard h, !f h)) (fun _ _ => rfl) hhosts rfl (fun _ _ _ => rfl)
    (fun _ _ => ⟨hs.quiet, hs.noNew⟩) fun g hg => ?_
  rw [Task.selected_all _ fun _ _ => rfl] at hg
  refine leads_register (w := fun found =>
      { s with volumeChanged := f, hadVolume := g, clusterExists := found })
    (v := fun h => g (e.shard h, true) != []) (fun _ _ => rfl) hhosts rfl (fun _ _ _ => rfl)
    (fun _ _ => ⟨hs.quiet, hs.noNew⟩) fun found hfound _ => leads_nil ⟨f, g, found, rfl, ?_⟩
  intro h hh
  rw [Task.selected_all _ fun _ _ => rfl] at hfound
  have hmem : ∀ x, x ∈ g (e.shard h, true) ↔
      x ∈ hosts ∧ e.shard x = e.shard h ∧ e.volume x = true := by
    intro x
    rw [hg, hvolume, Prod.mk.injEq]
    constructor
    · rintro (hx | ⟨hx, hshard, hf'⟩)
      · exact absurd hx (by simp [Groups.none])
      · rw [hf x hx, Bool.not_not] at hf'
        exact ⟨hx, hshard, hf'⟩
    · rintro ⟨hx, hshard, hvol⟩
      exact .inr ⟨hx, hshard, by rw [hf x hx, Bool.not_not, hvol]⟩
  rw [hfound h hh, bne_iff_ne]
  constructor
  · intro hne
    obtain ⟨x, hx⟩ := List.exists_mem_of_ne_nil _ hne
    exact ⟨x, (hmem x).mp hx⟩
  · rintro ⟨x, hx⟩
    exact List.ne_nil_of_mem ((hmem x).mpr hx)

theorem lookupLiveness_leads (hhosts : hosts.Nodup) {s : State H S} (hs : Quiet s)
    (hport : s.portAlive = .none) :
    Leads Quiet (lookupLiveness e) ⟨hosts, s⟩ fun p => ∃ l g, p = ⟨l, { s with portAlive := g }⟩ ∧
      l.Nodup ∧ (∀ h ∈ l, h ∈ hosts) ∧ (∀ h ∈ hosts, s.clusterExists h = false → h ∈ l) ∧
        ∀ k b x, x ∈ g (k, b) ↔ x ∈ hosts ∧ e.shard x = k ∧ e.alive x = b := by
  rw [lookupLiveness]
  refine leads_group (w := fun g => { s with portAlive := g })
    (k := fun h => (e.shard h, e.alive h)) (fun _ _ => rfl) hhosts rfl (fun _ _ _ => rfl)
    (fun _ _ => ⟨hs.quiet, hs.noNew⟩) fun g hg => ?_
  refine leads_check (fun _ _ => rfl) rfl ⟨hs.quiet, hs.noNew⟩
    (leads_nil ⟨_, g, rfl, hhosts.filter _, fun h hh => (List.mem_filter.mp hh).1, ?_, ?_⟩)
  · intro h hh hnone
    exact List.mem_filter.mpr ⟨hh, by simp [hnone]⟩
  · intro k b x
    rw [hg, hport, Task.selected_all _ fun _ _ => rfl, Prod.mk.injEq]
    simp [Groups.none]

theorem sameHosts_iff {l l' : List H} : sameHosts l l' = true ↔ ∀ x, x ∈ l ↔ x ∈ l' := by
  rw [sameHosts, Bool.and_eq_true, List.all_eq_true, List.all_eq_true]
  simp only [List.contains_iff_mem]
  exact ⟨fun h x => ⟨h.1 x, h.2 x⟩, fun h => ⟨fun x => (h x).mp, fun x => (h x).mpr⟩⟩


/-- The hosts of the play that were alive. -/
def Ports (e : Setup H S) (hosts : List H) (g : Groups (S × Bool) H) : Prop :=
  ∀ k b x, x ∈ g (k, b) ↔ x ∈ hosts ∧ e.shard x = k ∧ e.alive x = b

omit [DecidableEq S] in
theorem Ports.inPortAlive {s : State H S} (hg : Ports e hosts s.portAlive) {h : H}
    (hh : h ∈ hosts) : inPortAlive e true s h = e.alive h := by
  rw [Bool.eq_iff_iff, Mariadb.inPortAlive, Bool.and_eq_true, bne_iff_ne, List.contains_iff_mem, hg]
  constructor
  · exact fun hmem => hmem.2.2.2
  · intro halive
    have hmem : h ∈ s.portAlive (e.shard h, true) := (hg _ _ _).mpr ⟨hh, rfl, halive⟩
    exact ⟨List.ne_nil_of_mem hmem, hh, rfl, halive⟩

omit [DecidableEq S] in
/-- The last check passes on the hosts of a synced shard. -/
theorem Ports.synced_iff {g : Groups (S × Bool) H} (hg : Ports e hosts g) {l : List H}
    {f : H → Option String} {answers : Groups (S × String) H} {k : S}
    (hf : ∀ x ∈ hosts, f x = if x ∈ l ∧ e.alive x = true then e.wsrep x else none)
    (hanswers : ∀ k st x, x ∈ answers (k, st) ↔ x ∈ l ∧ e.shard x = k ∧ (f x).getD "NA" = st)
    (hl : ∀ h ∈ l, h ∈ hosts)
    (hall : ∀ x ∈ hosts, e.shard x = k → (e.alive x = true → (e.wsrep x).isSome) → x ∈ l) :
    (!(g (k, true) != [] && (answers (k, "Synced") == [] ||
      !sameHosts (g (k, true)) (answers (k, "Synced"))))) = true ↔ SyncedShard e hosts k := by
  have hanswer : ∀ x, x ∈ answers (k, "Synced") ↔
      x ∈ l ∧ e.shard x = k ∧ e.alive x = true ∧ e.wsrep x = some "Synced" := by
    intro x
    rw [hanswers]
    refine and_congr_right fun hx => and_congr_right fun _ => ?_
    rw [hf x (hl x hx)]
    by_cases halive : e.alive x = true
    · rw [if_pos ⟨hx, halive⟩]
      cases hw : e.wsrep x with
      | none => simp [halive]
      | some w => simp [halive]
    · rw [if_neg fun h => halive h.2]
      simp [halive]
  rw [Bool.not_eq_true', Bool.and_eq_false_iff, bne_eq_false_iff_eq, Bool.or_eq_false_iff,
    Bool.not_eq_false', sameHosts_iff, beq_eq_false_iff_ne]
  constructor
  · rintro (hnone | ⟨-, hsame⟩) x hx hk halive
    · have hmem : x ∈ g (k, true) := (hg _ _ _).mpr ⟨hx, hk, halive⟩
      rw [hnone] at hmem
      exact absurd hmem List.not_mem_nil
    · exact ((hanswer x).mp ((hsame x).mp ((hg _ _ _).mpr ⟨hx, hk, halive⟩))).2.2.2
  · intro hsynced
    by_cases hnone : g (k, true) = []
    · exact .inl hnone
    have hsame : ∀ x, x ∈ g (k, true) ↔ x ∈ answers (k, "Synced") := by
      intro x
      rw [hg, hanswer]
      constructor
      · rintro ⟨hx, hk, halive⟩
        have hw : e.wsrep x = some "Synced" := hsynced x hx hk halive
        exact ⟨hall x hx hk fun _ => by rw [hw]; rfl, hk, halive, hw⟩
      · rintro ⟨hx, hk, halive, -⟩
        exact ⟨hl x hx, hk, halive⟩
    obtain ⟨x, hx⟩ := List.exists_mem_of_ne_nil _ hnone
    exact .inr ⟨List.ne_nil_of_mem ((hsame x).mp hx), hsame⟩

theorem lookupSync_leads {l : List H} (hl : l.Nodup) {s : State H S} (hs : Quiet s)
    (hsub : ∀ h ∈ l, h ∈ hosts) (hport : Ports e hosts s.portAlive)
    (hstatus : ∀ h, s.syncStatus h = none) (hsync : s.synced = .none) :
    Leads Quiet (lookupSync e) ⟨l, s⟩ fun p => ∃ l' f g,
      p = ⟨l', { s with syncStatus := f, synced := g }⟩ ∧ l'.Nodup ∧ (∀ h ∈ l', h ∈ l) ∧
        ∀ h ∈ l, (∀ x ∈ hosts, e.shard x = e.shard h → x ∈ l) →
          (h ∈ l' ↔ SyncedShard e hosts (e.shard h)) := by
  rw [lookupSync]
  refine leads_check (fun _ _ => rfl) rfl hs ?_
  -- the hosts that could be asked
  generalize hasked : Task.passed _ _ = l₁
  have hl₁ : l₁.Nodup := hasked ▸ hl.filter _
  have hmem₁ : ∀ h, h ∈ l₁ ↔ h ∈ l ∧ (e.alive h = true → (e.wsrep h).isSome) := by
    intro h
    rw [← hasked, Task.passed, List.mem_filter]
    refine and_congr_right fun hh => ?_
    simp only [checkSyncStatus, hport.inPortAlive (hsub h hh)]
    cases e.alive h <;> simp
  have hsub₁ : ∀ h ∈ l₁, h ∈ hosts := fun h hh => hsub h ((hmem₁ h).mp hh).1
  refine leads_register (w := fun f => { s with syncStatus := f }) (v := e.wsrep)
    (fun _ _ => rfl) hl₁ rfl (fun _ _ _ => rfl) (fun _ _ => ⟨hs.quiet, hs.noNew⟩)
    fun f hf hf' => ?_
  refine leads_group (w := fun g => { s with syncStatus := f, synced := g })
    (k := fun h => (e.shard h, (f h).getD "NA")) (fun _ _ => rfl) hl₁ rfl (fun _ _ _ => rfl)
    (fun _ _ => ⟨hs.quiet, hs.noNew⟩) fun g hg => ?_
  refine leads_check (fun _ _ => rfl) rfl ⟨hs.quiet, hs.noNew⟩
    (leads_nil ⟨_, f, g, rfl, hl₁.filter _, fun h hh => ?_, fun h hh hall => ?_⟩)
  · exact ((hmem₁ h).mp (List.mem_filter.mp hh).1).1
  have hselected : ∀ x, x ∈ (extractSyncStatus e).selected ⟨l₁, s⟩ ↔ x ∈ l₁ ∧ e.alive x = true := by
    intro x
    rw [Task.selected, List.mem_filter]
    refine and_congr_right fun hx => ?_
    simp only [extractSyncStatus, hport.inPortAlive (hsub₁ x hx)]
  have hstatuses : ∀ x ∈ hosts, f x = if x ∈ l₁ ∧ e.alive x = true then e.wsrep x else none := by
    intro x _
    by_cases hx : x ∈ l₁ ∧ e.alive x = true
    · rw [if_pos hx, hf x ((hselected x).mpr hx)]
    · rw [if_neg hx, hf' x (fun hmem => hx ((hselected x).mp hmem)), hstatus]
  have hanswers : ∀ k st x, x ∈ g (k, st) ↔ x ∈ l₁ ∧ e.shard x = k ∧ (f x).getD "NA" = st := by
    intro k st x
    rw [hg, hsync, Task.selected_all _ fun _ _ => rfl, Prod.mk.injEq]
    simp [Groups.none]
  have hpass := hport.synced_iff hstatuses hanswers hsub₁ fun x hx hk hw =>
    (hmem₁ x).mpr ⟨hall x hx hk, hw⟩
  rw [Task.passed, List.mem_filter, Bool.not_true, Bool.false_or, hpass, hmem₁]
  refine ⟨fun hmem => hmem.2, fun hsynced => ⟨⟨hh, fun halive => ?_⟩, hsynced⟩⟩
  rw [hsynced h (hsub h hh) rfl halive]
  rfl

theorem tasks_leads (hhosts : hosts.Nodup) :
    Leads Quiet (tasks e) (startPlay e hosts) (LookedUp e hosts) := by
  rw [tasks, ← List.singleton_append, List.append_assoc]
  refine leads_append (checkContainers_leads hhosts) ?_
  rintro _ ⟨n, rfl, hn⟩
  refine leads_append (lookupVolumes_leads hhosts ⟨hn, rfl⟩ rfl) ?_
  rintro _ ⟨f, g, found, rfl, hfound⟩
  refine leads_append (lookupLiveness_leads hhosts ⟨hn, rfl⟩ rfl) ?_
  rintro _ ⟨l, ports, rfl, hl, hsub, hkept, hports⟩
  refine (lookupSync_leads hl ⟨hn, rfl⟩ hsub (show Ports e hosts ports from hports)
    (fun _ => rfl) rfl).mono ?_
  rintro _ ⟨l', status, answers, rfl, hl', hsub', hsynced⟩
  refine ⟨⟨hn, rfl⟩, fun h hh => hsub h (hsub' h hh), hl', hfound,
    fun h hh (hnone : found h = false) => ?_⟩
  -- the hosts of a shard agree on whether its cluster exists
  refine hsynced h (hkept h hh hnone) fun x hx hshard => hkept x hx (show found x = false from ?_)
  have hiff := hfound x hx
  rw [hshard, ← hfound h hh, hnone] at hiff
  simpa using hiff

/-! ## The bootstrap -/

theorem LookedUp.selected_iff {p : Play H (State H S)} (hp : LookedUp e hosts p) {h : H} :
    h ∈ (bootstrapCluster e).selected p ↔ Boots e hosts h := by
  have hnone : h ∈ hosts → (p.state.clusterExists h = false ↔
      ∀ x ∈ hosts, e.shard x = e.shard h → e.volume x = false) := by
    intro hh
    rw [← Bool.not_eq_true, hp.found h hh]
    simp only [not_exists, not_and, Bool.not_eq_true]
  simp only [Block.selected, List.mem_filter, bootstrapCluster, Bool.and_eq_true, Bool.not_eq_true',
    beq_iff_eq]
  constructor
  · rintro ⟨hactive, hcluster, hfirst⟩
    have hh : h ∈ hosts := hp.sub h hactive
    exact ⟨hh, hfirst, (hnone hh).mp hcluster, (hp.stays h hh hcluster).mp hactive⟩
  · intro hb
    have hcluster := (hnone hb.mem).mpr hb.noVolume
    exact ⟨(hp.stays h hb.mem hcluster).mpr hb.synced, hcluster, hb.first⟩

/-- Only such hosts are told to start a new cluster, and start one. -/
structure OnlyBoots (e : Setup H S) (hosts : List H) (s : State H S) : Prop where
  told : ∀ h, s.notified .bootstrapCluster h = true → Boots e hosts h
  started : ∀ h ∈ s.newCluster, Boots e hosts h

omit [DecidableEq H] in
theorem OnlyBoots.noSecondCluster {s : State H S} (hs : OnlyBoots e hosts s)
    (hclean : ∀ h, Boots e hosts h →
      ∀ x ∈ e.mariadb, e.shard x = e.shard h → e.volume x = false) : NoSecondCluster e s := by
  refine ⟨fun h hh x hx hshard => ?_, fun h hh => hclean h (hs.started h hh)⟩
  have hfirst := (hs.started x hx).first
  rw [hshard, (hs.started h hh).first] at hfirst
  exact (Option.some.inj hfirst).symm

theorem bootstrap_always {Safe : State H S → Prop} (hsafe : ∀ s, OnlyBoots e hosts s → Safe s)
    {p : Play H (State H S)} (hp : LookedUp e hosts p) :
    Always (fun p => Safe p.state) [] (bootstrapCluster e :: handlers e) p := by
  have hstart : OnlyBoots e hosts p.state :=
    ⟨fun h hh => absurd hh (by simp [hp.quiet h]), by simp [hp.noNew]⟩
  refine always_enter (always_keep (fun _ _ => rfl) hp.nodup hstart ?_ hsafe fun s hs =>
    always_keep (P := OnlyBoots e hosts) (fun _ _ => rfl) hp.nodup hs
      (fun _ _ _ hs => ⟨hs.told, hs.started⟩) hsafe fun s hs => ?_)
  · intro h s hsel hs
    refine ⟨fun x hx => ?_, hs.started⟩
    change s.notified.notify .bootstrapCluster h .bootstrapCluster x = true at hx
    rcases Notices.notify_iff.mp hx with hx | ⟨-, rfl⟩
    · exact hs.told x hx
    · exact hp.selected_iff.mp (Task.mem_selected_on.mp hsel).2.1
  · refine always_enter (always_keep (P := OnlyBoots e hosts) (fun _ _ => rfl) hp.nodup hs ?_ hsafe
      fun s hs => always_blocks hp.nodup hsafe ?_ hs)
    · intro h s' hsel hs'
      refine ⟨hs'.told, fun x hx => ?_⟩
      rcases List.mem_append.mp hx with hx | hx
      · exact hs'.started x hx
      · rw [List.mem_singleton.mp hx]
        have hmem := (Task.mem_selected_on.mp hsel).2.1
        exact hs.told h (List.mem_filter.mp hmem).2
    · intro b hb t ht
      simp only [List.mem_cons, List.not_mem_nil, or_false] at hb
      rcases hb with rfl | rfl | rfl | rfl <;> rw [List.mem_singleton.mp ht] <;>
        exact ⟨fun _ _ => rfl, fun _ _ hs => ⟨hs.told, hs.started⟩⟩

/-- There is a run in which all of them do. -/
theorem bootstrap_exists {Safe : State H S → Prop} {p : Play H (State H S)}
    (hp : LookedUp e hosts p)
    (hall : Always (fun p => Safe p.state) [] (bootstrapCluster e :: handlers e) p) :
    ∃ s, (∀ h, Boots e hosts h → h ∈ s.newCluster) ∧ Safe s := by
  obtain ⟨s₁, htold, hall⟩ := hall.enter.run
    (J := fun done s => ∀ h ∈ done, s.notified .bootstrapCluster h = true) (fun _ _ => rfl)
    hp.nodup (by simp) fun done h s _ _ hJ x hx => by
      change s.notified.notify .bootstrapCluster h .bootstrapCluster x = true
      rw [Notices.notify_iff]
      exact (List.mem_append.mp hx).imp (hJ x) fun hxh => ⟨rfl, List.mem_singleton.mp hxh⟩
  obtain ⟨s₂, hkept, hall⟩ := hall.run (J := fun _ s => s.notified = s₁.notified) (fun _ _ => rfl)
    hp.nodup rfl fun _ _ s _ _ (hJ : s.notified = s₁.notified) => hJ
  obtain ⟨s₃, hstarted, hall⟩ := hall.enter.run (J := fun done s => ∀ h ∈ done, h ∈ s.newCluster)
    (fun _ _ => rfl) hp.nodup (by simp) fun done h s _ _ hJ x hx => by
      exact List.mem_append.mpr ((List.mem_append.mp hx).imp (hJ x) id)
  refine ⟨s₃, fun h hb => hstarted h ?_, hall.now⟩
  have hmem : h ∈ (bootstrapCluster e).selected p := hp.selected_iff.mpr hb
  have hactive : h ∈ p.active := (List.mem_filter.mp hmem).1
  have hnotified : s₂.notified .bootstrapCluster h = true := by
    rw [hkept]
    exact htold h (Task.mem_selected_on.mpr ⟨hactive, hmem, rfl⟩)
  exact Task.mem_selected_on.mpr ⟨hactive, List.mem_filter.mpr ⟨hactive, hnotified⟩, rfl⟩

/-- A new cluster is started beside the data of a shard exactly when the hosts of the shard that
have the data take no part, and those that do raise no error. -/
theorem noSecondCluster_iff (e : Setup H S) {hosts : List H} (hhosts : hosts.Nodup) :
    Throughout e hosts (NoSecondCluster e) ↔ ∀ h ∈ hosts, Boots e hosts h →
      ∀ x ∈ e.mariadb, e.shard x = e.shard h → e.volume x = false := by
  constructor
  · intro h x _ hb
    obtain ⟨p, hp, hall⟩ := (tasks_leads hhosts).exists_run h
    obtain ⟨s, hstarted, hsafe⟩ := bootstrap_exists hp hall
    exact hsafe.2 x (hstarted x hb)
  · intro hclean
    refine (tasks_leads hhosts).always (fun s hs => ?_) fun p hp => bootstrap_always
      (fun s hs => hs.noSecondCluster fun h hb => hclean h hb.mem hb) hp
    simp [NoSecondCluster, hs.noNew]

/-- The first of three hosts was replaced. -/
def replaced : Setup (Fin 3) Unit where
  mariadb := [0, 1, 2]
  shard _ := ()
  volume h := h != 0
  alive h := h != 0
  wsrep h := if h = 0 then none else some "Synced"
  differs _ := true

theorem replaced_noSecondCluster : Throughout replaced [0, 1, 2] (NoSecondCluster replaced) := by
  refine (noSecondCluster_iff replaced (by decide)).mpr fun h _ hb => ?_
  exact absurd (hb.noVolume 1 (by decide) rfl) (by decide)

/-- A play limited to the new host gives it a cluster of its own. -/
theorem replaced_secondCluster : ¬Throughout replaced [0] (NoSecondCluster replaced) := by
  intro h
  obtain ⟨p, hp, hall⟩ := (tasks_leads (by decide)).exists_run h
  obtain ⟨s, hstarted, hsafe⟩ := bootstrap_exists hp hall
  have hboots : Boots replaced [0] 0 := ⟨by decide, by decide, by decide, by
    intro x hx _ halive
    rw [List.mem_singleton.mp hx] at halive
    exact absurd halive (by decide)⟩
  exact absurd (hsafe.2 0 (hstarted 0 hboots) 1 (by decide) rfl) (by decide)

end Mariadb
end KollaPowerOps
