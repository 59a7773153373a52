import KollaPowerOps.Mariadb.Bootstrap

/-!
# Mariadb.Quorum

How many hosts of a shard the play `Restart mariadb services` takes down together.

A batch is a share of the hosts of all shards, and all of it can be of one shard: a shard keeps its
quorum exactly if it could lose a whole batch of its own hosts.
-/

namespace KollaPowerOps
namespace Mariadb

open Linear

variable {H S : Type} [DecidableEq H] [DecidableEq S]

/-- More than half of the hosts of every shard are up. -/
def Quorate (e : Setup H S) (s : State H S) : Prop := ∀ h ∈ e.mariadb,
  (e.members (e.shard h)).length < 2 * ((e.members (e.shard h)).filter (s.up ·)).length

/-- The role has put these hosts into the group `mariadb_restart`, in any order. -/
structure Grouped (e : Setup H S) (notified : List H) (s : State H S) : Prop where
  restart : s.restart.Perm notified
  ports : Ports e e.mariadb s.portAlive
  up : ∀ h ∈ e.mariadb, s.up h = true

variable {e : Setup H S}

omit [DecidableEq S] in
/-- The handlers do so with the hosts where the container is to be restarted. -/
theorem groupRestart_leads (hmariadb : e.mariadb.Nodup) (halive : ∀ h ∈ e.mariadb, e.alive h = true)
    {s : State H S} (hs : Grouped e [] s) :
    Leads (fun _ => True) ((handler .restartContainer (groupRestart e)).enter ⟨e.mariadb, s⟩)
      ⟨e.mariadb, s⟩ fun p => p.active = e.mariadb ∧
        Grouped e (e.mariadb.filter (s.notified .restartContainer)) p.state := by
  refine leads_run (J := fun done s' => s' = { s with restart := done }) (fun _ _ => rfl) hmariadb
    ?_ ?_ (fun _ _ _ => trivial) ?_
  · rw [← List.perm_nil.mp hs.restart]
  · rintro done h _ - - rfl
    rfl
  · rintro done _ hperm rfl
    refine leads_nil ⟨rfl, hperm.trans ?_, hs.ports, hs.up⟩
    rw [Task.selected]
    refine List.Perm.of_eq (List.filter_congr fun h hh => ?_)
    have hport : inPortAlive e true s h = true := by rw [hs.ports.inPortAlive hh, halive h hh]
    rw [Bool.eq_iff_iff]
    simp only [Task.on, groupRestart, hport, Bool.and_true, List.contains_iff_mem, Block.selected,
      List.mem_filter, handler]
    exact ⟨fun hmem => hmem.2, fun hnotified => ⟨hh, hnotified⟩⟩

/-! ## Restart mariadb services -/

/-- How many hosts of the shard a batch can have. -/
def together (e : Setup H S) (notified : List H) (k : S) : Nat :=
  min (batchSize notified.length) (notified.filter (e.shard · = k)).length

omit [DecidableEq H] in
theorem quorate_of_down {s : State H S} {l notified : List H} (hmariadb : e.mariadb.Nodup)
    (hsub : ∀ h ∈ l, h ∈ notified) (hlength : l.length ≤ batchSize notified.length)
    (hdown : DownWithin State.up e.mariadb l s)
    (htol : ∀ h ∈ e.mariadb, 2 * together e notified (e.shard h) <
      (e.members (e.shard h)).length) : Quorate e s := by
  intro h hh
  have hmembers : (e.members (e.shard h)).Nodup := hmariadb.filter _
  have hsubset : ∀ l' : List H, (∀ x ∈ l, e.shard x = e.shard h → x ∈ l') →
      ((e.members (e.shard h)).filter fun x => !s.up x).length ≤ l'.length := by
    intro l' hl'
    refine (List.subperm_of_subset (hmembers.filter _) fun x hx => ?_).length_le
    obtain ⟨hmem, hup⟩ := List.mem_filter.mp hx
    obtain ⟨hx, hshard⟩ := List.mem_filter.mp hmem
    exact hl' x (hdown x hx (by simpa using hup)) (by simpa using hshard)
  have hbatch := hsubset l fun x hx _ => hx
  have hshard := hsubset (notified.filter (e.shard · = e.shard h)) fun x hx hk =>
    List.mem_filter.mpr ⟨hsub x hx, by simpa using hk⟩
  have hsplit := List.length_eq_length_filter_add (l := e.members (e.shard h)) (s.up ·)
  have htol := htol h hh
  rw [together] at htol
  omega

omit [DecidableEq S] in
theorem restartPlay_always {Safe : State H S → Prop} (halive : ∀ h ∈ e.mariadb, e.alive h = true)
    {notified : List H} (hnotified : notified.Nodup) (hmem : ∀ h ∈ notified, h ∈ e.mariadb)
    {s : State H S} (hs : Grouped e notified s)
    (hsafe : ∀ l : List H, l.length ≤ batchSize notified.length → (∀ h ∈ l, h ∈ notified) →
      ∀ s, DownWithin State.up e.mariadb l s → Safe s) :
    Always (fun p => Safe p.state) [] (restartPlay e s) ⟨s.restart, s⟩ := by
  have hin : ∀ h ∈ s.restart, h ∈ e.mariadb := fun h hh => hmem h (hs.restart.mem_iff.mp hh)
  have hstop : Task.Sets State.up false (fun s' : State H S => s'.portAlive = s.portAlive)
      (restartContainer : Task H (State H S)) := ⟨⟨fun _ _ => rfl, fun _ _ hs' => hs'⟩, fun _ _ => rfl⟩
  have hback : Task.Sets State.up true (fun s' : State H S => s'.portAlive = s.portAlive)
      (waitSync e) := ⟨⟨fun _ _ => rfl, fun _ _ hs' => hs'⟩, fun _ _ => rfl⟩
  have hup : DownWithin State.up e.mariadb [] s := by
    intro h hh hdown
    rw [hs.up h hh] at hdown
    exact absurd hdown (by decide)
  refine serial_always (hs.restart.nodup_iff.mpr hnotified) hstop ?_ hback ?_ rfl hup ?_
  · intro t ht
    rw [List.mem_singleton.mp ht]
    exact ⟨⟨fun _ _ => rfl, fun _ _ hs' => hs'⟩, fun _ _ => rfl⟩
  · intro s' hs' h hh
    have hports : Ports e e.mariadb s'.portAlive := by
      rw [hs']
      exact hs.ports
    simp only [waitSync, hports.inPortAlive (hin h hh), halive h (hin h hh), Bool.or_true]
  · intro l _ hlength hsub s' _ hdown
    refine hsafe l ?_ (fun h hh => hs.restart.mem_iff.mp (hsub h hh)) s' hdown
    rw [hs.restart.length_eq, batchSize] at hlength
    rw [batchSize]
    omega

/-- A play that finds these hosts in the group, in this order. -/
def restartStart (e : Setup H S) (order : List H) : State H S where
  portAlive kb := e.mariadb.filter fun h => e.shard h = kb.1 && e.alive h = kb.2
  restart := order
  up _ := true

omit [DecidableEq H] in
theorem restartStart_grouped {order notified : List H} (h : order.Perm notified) :
    Grouped e notified (restartStart e order) where
  restart := h
  ports k b x := by simp [restartStart]
  up _ _ := rfl

/-- At some moment a whole batch of a shard is down. -/
theorem restartPlay_exists {Safe : State H S → Prop} {notified : List H}
    (hnotified : notified.Nodup) (k : S) (hne : notified ≠ [])
    (h : ∀ s, Grouped e notified s →
      Always (fun p => Safe p.state) [] (restartPlay e s) ⟨s.restart, s⟩) :
    ∃ s, (∀ x ∈ (notified.filter (e.shard · = k)).take (batchSize notified.length),
      s.up x = false) ∧ Safe s := by
  -- the hosts of the shard stand first
  have hperm := List.filter_append_perm (e.shard · = k) notified
  have hstop : Task.Sets State.up false (fun _ => True) (restartContainer : Task H (State H S)) :=
    ⟨⟨fun _ _ => rfl, fun _ _ _ => trivial⟩, fun _ _ => rfl⟩
  obtain ⟨s, hdown, hsafe⟩ := serial_exists (hperm.nodup_iff.mpr hnotified)
    (fun hnil => hne (List.nil_perm.mp (hnil ▸ hperm))) hstop (fun _ _ => rfl)
    (h _ (restartStart_grouped hperm))
  refine ⟨s, fun x hx => hdown x ?_, hsafe⟩
  rw [restartStart, hperm.length_eq, List.take_append, batchSize]
  refine List.mem_append_left _ ?_
  rwa [Nat.max_eq_right (Nat.le_max_left _ _)]

/-- Every shard keeps its quorum, in whatever order its hosts were notified, exactly if it has more
than twice as many hosts as a batch can have of it. -/
theorem quorate_iff (hmariadb : e.mariadb.Nodup) (halive : ∀ h ∈ e.mariadb, e.alive h = true)
    (notified : H → Bool) :
    (∀ s, Grouped e (e.mariadb.filter notified) s →
      Always (fun p => Quorate e p.state) [] (restartPlay e s) ⟨s.restart, s⟩) ↔
    ∀ h ∈ e.mariadb, 2 * together e (e.mariadb.filter notified) (e.shard h) <
      (e.members (e.shard h)).length := by
  have hnotified : (e.mariadb.filter notified).Nodup := hmariadb.filter _
  constructor
  · intro h x hx
    have hmembers : (e.members (e.shard x)).Nodup := hmariadb.filter _
    have hsplit := fun s : State H S =>
      List.length_eq_length_filter_add (l := e.members (e.shard x)) (s.up ·)
    by_cases hne : e.mariadb.filter notified = []
    · have hmem : x ∈ e.members (e.shard x) := List.mem_filter.mpr ⟨hx, by simp⟩
      rw [together, hne]
      simpa using List.length_pos_of_mem hmem
    · obtain ⟨s, hdown, hsafe⟩ := restartPlay_exists hnotified (e.shard x) hne h
      have hlost : together e (e.mariadb.filter notified) (e.shard x) ≤
          ((e.members (e.shard x)).filter fun y => !s.up y).length := by
        rw [together, ← List.length_take]
        refine (List.subperm_of_subset ((hnotified.filter _).sublist (List.take_sublist _ _))
          fun y hy => ?_).length_le
        have hmem := List.mem_filter.mp (List.mem_of_mem_take hy)
        exact List.mem_filter.mpr ⟨List.mem_filter.mpr ⟨(List.mem_filter.mp hmem.1).1, hmem.2⟩,
          by rw [hdown y hy]; rfl⟩
      have hquorate := hsafe x hx
      have hsplit := hsplit s
      omega
  · intro htol s hs
    exact restartPlay_always halive hnotified (fun h hh => (List.mem_filter.mp hh).1) hs
      fun l hlength hsub s' hdown => quorate_of_down hmariadb hsub hlength hdown htol

/-- So many shards of three hosts. -/
def threes (n : Nat) : Setup (Fin n × Fin 3) (Fin n) where
  mariadb := (List.finRange n).flatMap fun k => (List.finRange 3).map fun i => (k, i)
  shard h := h.1
  volume _ := true
  alive _ := true
  wsrep _ := some "Synced"
  differs _ := true

/-- The hosts of two shards restart one by one. -/
theorem threes_two_quorate : batchSize 6 = 1 ∧
    ∀ s, Grouped (threes 2) ((threes 2).mariadb.filter fun _ => true) s →
      Always (fun p => Quorate (threes 2) p.state) [] (restartPlay (threes 2) s) ⟨s.restart, s⟩ :=
  ⟨by decide, (quorate_iff (by decide) (fun _ _ => rfl) fun _ => true).mpr (by decide)⟩

/-- Of three shards, one can lose two of its three hosts. -/
theorem threes_three_not_quorate :
    (∀ h ∈ (threes 3).mariadb, 3 ≤ ((threes 3).members ((threes 3).shard h)).length) ∧
    ¬∀ s, Grouped (threes 3) ((threes 3).mariadb.filter fun _ => true) s →
      Always (fun p => Quorate (threes 3) p.state) [] (restartPlay (threes 3) s) ⟨s.restart, s⟩ := by
  refine ⟨by decide, fun h => ?_⟩
  obtain ⟨s, hdown, hsafe⟩ := restartPlay_exists (by decide) 0 (by decide) h
  have h₀ : s.up (0, 0) = false := hdown (0, 0) (by decide)
  have h₁ : s.up (0, 1) = false := hdown (0, 1) (by decide)
  have hquorate := hsafe (0, 0) (by decide)
  have hmembers : (threes 3).members ((threes 3).shard (0, 0)) = [(0, 0), (0, 1), (0, 2)] := by
    decide
  rw [hmembers, List.filter_cons_of_neg (by simp [h₀]), List.filter_cons_of_neg (by simp [h₁])]
    at hquorate
  have hleft := List.length_filter_le (s.up ·) [((0, 2) : Fin 3 × Fin 3)]
  simp only [List.length_cons, List.length_nil] at hquorate hleft
  omega

/-- With a single shard of three hosts or more the quorum is never lost. -/
theorem quorate_of_single (hmariadb : e.mariadb.Nodup)
    (halive : ∀ h ∈ e.mariadb, e.alive h = true) (notified : H → Bool)
    (hsingle : ∀ h ∈ e.mariadb, e.members (e.shard h) = e.mariadb) (hthree : 3 ≤ e.mariadb.length)
    {s : State H S} (hs : Grouped e (e.mariadb.filter notified) s) :
    Always (fun p => Quorate e p.state) [] (restartPlay e s) ⟨s.restart, s⟩ := by
  refine restartPlay_always halive (hmariadb.filter _)
    (fun h hh => (List.mem_filter.mp hh).1) hs fun l hlength hsub s' hdown =>
      quorate_of_down hmariadb hsub hlength hdown fun h hh => ?_
  have hlength := List.length_filter_le notified e.mariadb
  rw [hsingle h hh, together, batchSize]
  omega

end Mariadb
end KollaPowerOps
