import KollaPowerOps.Ovn.Role

/-!
# Ovn.NewCluster

Which hosts start a database without a remote address.

The checks of a database run only on hosts that have its volume, and take part; and they let a
cluster pass none of whose databases is running. In both cases the first host of the group, if its
volume is lost, starts a second cluster.
-/

namespace KollaPowerOps
namespace Ovn

open Linear

variable {H : Type} [DecidableEq H]

/-- Of a group only one host starts a new cluster, and no host of the group had the volume. -/
def NeverTwice (e : Setup H) (s : State H) : Prop := ∀ db, ∀ h ∈ (s db).newCluster,
  (∀ x ∈ (s db).newCluster, x = h) ∧ ∀ x ∈ e.group db, e.volume db x = false

/-- A host that takes part has the volume. -/
structure Had (e : Setup H) (hosts : List H) (db : Db) (x : H) : Prop where
  mem : x ∈ hosts
  examined : e.examined x = true
  volume : e.volume db x = true

/-- The checks of the database do not stop the play. -/
structure Passes (e : Setup H) (hosts : List H) (db : Db) : Prop where
  all : ∀ x, Had e hosts db x → ∀ y ∈ e.group db, y ∈ hosts
  answers : ∀ x, Had e hosts db x → e.alive db x = true → (e.leader db x).isSome
  leads : ∀ x, Had e hosts db x → e.alive db x = true → e.leader db x = some false →
    ∃ y, Had e hosts db y ∧ e.alive db y = true ∧ e.leader db y = some true

/-- The host is the first of the group and lost its volume, nothing stops the play, and no database
is running on the hosts that have the volume. -/
structure Starts (e : Setup H) (hosts : List H) (db : Db) (h : H) : Prop where
  mem : h ∈ hosts
  first : (e.group db).head? = some h
  lost : e.volume db h = false
  stopped : ∀ x, Had e hosts db x → e.alive db x = false
  passes : ∀ db, Passes e hosts db

/-- Only such hosts have started a new cluster. -/
def OnlyStarts (e : Setup H) (hosts : List H) (db : Db) (d : DbState H) : Prop :=
  ∀ h ∈ d.newCluster, Starts e hosts db h

variable {e : Setup H} {hosts : List H}

/-! ## One database, then the other -/

/-- What a list of tasks makes of its database, or else it stops the play. -/
def Stage (l : List H) (s : State H) (db : Db) (Stop : Prop) (B : DbState H → Prop)
    (p : Play H (State H)) : Prop :=
  p.active = [] ∧ Stop ∧ (∀ db, (p.state db).newCluster = (s db).newCluster) ∨
    p.active = l ∧ B (p.state db) ∧ ∀ db', db' ≠ db → p.state db' = s db'

theorem both_leads {A B : Db → DbState H → Prop} {E : Db → Prop}
    {t : Db → List (Task H (State H))} {l : List H}
    (hA : ∀ db d, A db d → OnlyStarts e hosts db d) (hB : ∀ db d, B db d → OnlyStarts e hosts db d)
    (hstage : ∀ db s, A db (s db) → (∀ db, OnlyStarts e hosts db (s db)) →
      Leads (fun s => ∀ db, OnlyStarts e hosts db (s db)) (t db) ⟨l, s⟩
        (Stage l s db (E db) (B db))) {s : State H} (hs : ∀ db, A db (s db)) :
    Leads (fun s => ∀ db, OnlyStarts e hosts db (s db)) (t .nb ++ t .sb) ⟨l, s⟩ fun p =>
      p.active = [] ∧ (∃ db, E db) ∧ (∀ db, OnlyStarts e hosts db (p.state db)) ∨
        ∃ s', p = ⟨l, s'⟩ ∧ ∀ db, B db (s' db) := by
  refine leads_append (hstage .nb s (hs .nb) fun db => hA db _ (hs db)) ?_
  rintro ⟨_, s₁⟩ (⟨rfl, hstop, hnew⟩ | ⟨rfl, hnb, hother⟩)
  · refine leads_stopped (.inl ⟨rfl, ⟨.nb, hstop⟩, fun db h hh => hA db _ (hs db) h ?_⟩)
    rwa [← hnew db]
  · have hsb : s₁ .sb = s .sb := hother .sb (by decide)
    have hs₁ : ∀ db, OnlyStarts e hosts db (s₁ db)
      | .nb => hB _ _ hnb
      | .sb => hsb ▸ hA _ _ (hs .sb)
    refine (hstage .sb s₁ (hsb ▸ hs .sb) hs₁).mono ?_
    rintro ⟨_, s₂⟩ (⟨rfl, hstop, hnew⟩ | ⟨rfl, hsb, hother⟩)
    · refine .inl ⟨rfl, ⟨.sb, hstop⟩, fun db h hh => hs₁ db h ?_⟩
      rwa [← hnew db]
    · refine .inr ⟨s₂, rfl, fun db => ?_⟩
      cases db with
      | nb =>
        have hnb' : s₂ .nb = s₁ .nb := hother .nb (by decide)
        rwa [hnb']
      | sb => exact hsb

/-- A task on one database that keeps the list of new clusters. -/
theorem onlyStarts_update {s : State H} {db : Db} {d : DbState H}
    (hs : ∀ db, OnlyStarts e hosts db (s db)) (hd : d.newCluster = (s db).newCluster) :
    ∀ db', OnlyStarts e hosts db' (Function.update s db d db') := by
  refine Function.forall_update_iff .. |>.mpr ⟨fun h hh => hs db h (hd ▸ hh), fun db' _ => hs db'⟩

/-! ## The lookup -/

/-- The hosts that are looked at. -/
def Examined (e : Setup H) (hosts sel : List H) : Prop :=
  ∀ h, h ∈ sel ↔ h ∈ hosts ∧ e.examined h = true

/-- They are divided by the volume of the database. -/
def Divided (e : Setup H) (hosts : List H) (db : Db) (g : Groups Bool H) : Prop :=
  ∀ b x, x ∈ g b ↔ x ∈ hosts ∧ e.examined x = true ∧ e.volume db x = b

theorem Divided.had_iff {db : Db} {g : Groups Bool H} (hg : Divided e hosts db g) {x : H} :
    x ∈ g true ↔ Had e hosts db x := by
  rw [hg]
  exact ⟨fun ⟨h₁, h₂, h₃⟩ => ⟨h₁, h₂, h₃⟩, fun ⟨h₁, h₂, h₃⟩ => ⟨h₁, h₂, h₃⟩⟩

/-- Those that have the volume and are alive are divided by their role. -/
def Roles (e : Setup H) (hosts : List H) (db : Db) (r : Groups Bool H) : Prop :=
  ∀ b x, x ∈ r b ↔ Had e hosts db x ∧ e.alive db x = true ∧ e.leader db x = some b

section Lookup

variable {sel : List H} {s : State H} {db : Db}

theorem divideByVolume_stage (hhosts : hosts.Nodup) (hsel : Examined e hosts sel)
    (hs : ∀ db, OnlyStarts e hosts db (s db)) (hdb : s db = initial e db) :
    Leads (fun s => ∀ db, OnlyStarts e hosts db (s db)) [(divideByVolume e db).on sel] ⟨hosts, s⟩
      (Stage hosts s db False fun d => ∃ g, d = { initial e db with hadVolume := g } ∧
        Divided e hosts db g) := by
  refine leads_group (w := fun g => Function.update s db { s db with hadVolume := g })
    (k := e.volume db) (fun _ _ => rfl) hhosts (Function.update_eq_self db s).symm
    (fun h g _ => by simp [divideByVolume, Task.on, State.modify])
    (fun g _ => onlyStarts_update hs rfl)
    fun g hg => leads_nil (.inr ⟨rfl, ⟨g, ?_, fun b x => ?_⟩, fun db' hne =>
      Function.update_of_ne hne ..⟩)
  · exact (Function.update_self ..).trans (by rw [hdb])
  · rw [hg, Task.mem_selected_on, hsel, hdb]
    simp only [initial, Groups.none, List.not_mem_nil, false_or, divideByVolume, and_true]
    constructor
    · rintro ⟨⟨-, hx⟩, hb⟩
      exact ⟨hx.1, hx.2, hb⟩
    · rintro ⟨hx, hex, hb⟩
      exact ⟨⟨hx, hx, hex⟩, hb⟩

theorem establishCluster_stage (hhosts : hosts.Nodup) (hsel : Examined e hosts sel)
    (hs : ∀ db, OnlyStarts e hosts db (s db)) {g : Groups Bool H}
    (hdb : s db = { initial e db with hadVolume := g }) (hg : Divided e hosts db g) :
    Leads (fun s => ∀ db, OnlyStarts e hosts db (s db)) [(establishCluster db).on sel] ⟨hosts, s⟩
      (Stage hosts s db False fun d => ∃ g c,
        d = { initial e db with hadVolume := g, clusterExists := c } ∧ Divided e hosts db g ∧
          ∀ h ∈ sel, c h = (g true != [])) := by
  refine leads_register (w := fun c => Function.update s db { s db with clusterExists := c })
    (v := fun _ => g true != []) (fun _ _ => rfl) hhosts (Function.update_eq_self db s).symm
    (fun h c _ => by simp [establishCluster, Task.on, State.modify, hdb])
    (fun c _ => onlyStarts_update hs rfl)
    fun c hc _ => leads_nil (.inr ⟨rfl, ⟨g, c, ?_, hg, fun h hh => hc h ?_⟩, fun db' hne =>
      Function.update_of_ne hne ..⟩)
  · exact (Function.update_self ..).trans (by rw [hdb])
  · exact Task.mem_selected_on.mpr ⟨((hsel h).mp hh).1, hh, rfl⟩

/-- The hosts on which a check runs. -/
theorem mem_selected_check {t : Task H (State H)} (hsel : Examined e hosts sel)
    {g : Groups Bool H} (hdb : (s db).hadVolume = g) (hg : Divided e hosts db g) {x : H} :
    x ∈ ((t.within fun s h => ((s db).hadVolume true).contains h).on sel).selected ⟨hosts, s⟩ ↔
      Had e hosts db x ∧ t.when s x = true := by
  rw [Task.mem_selected_on, hsel, Task.within, Bool.and_eq_true, List.contains_iff_mem, hdb,
    hg.had_iff]
  constructor
  · exact fun ⟨_, _, hx, hwhen⟩ => ⟨hx, hwhen⟩
  · exact fun ⟨hx, hwhen⟩ => ⟨hx.mem, ⟨hx.mem, hx.examined⟩, hx, hwhen⟩

/-- What the checks of a database leave. -/
def Looked (e : Setup H) (hosts : List H) (db : Db) (d : DbState H) : Prop :=
  ∃ g c r, d = { initial e db with hadVolume := g, clusterExists := c, role := r } ∧
    Divided e hosts db g ∧ Roles e hosts db r ∧ Passes e hosts db

/-- The last checks: the hosts that answer are divided, and one of them is to lead. -/
theorem roles_stage (hhosts : hosts.Nodup) (hsel : Examined e hosts sel)
    (hs : ∀ db, OnlyStarts e hosts db (s db)) {g : Groups Bool H} {c : H → Bool}
    (hdb : s db = { initial e db with hadVolume := g, clusterExists := c })
    (hg : Divided e hosts db g) (hall : ∀ x, Had e hosts db x → ∀ y ∈ e.group db, y ∈ hosts)
    (hanswers : ∀ x, Had e hosts db x → e.alive db x = true → (e.leader db x).isSome) :
    Leads (fun s => ∀ db, OnlyStarts e hosts db (s db))
      ([divideByRole e db, failNoLeader db].map fun t =>
        (t.within fun s h => ((s db).hadVolume true).contains h).on sel)
      ⟨hosts, s⟩ (Stage hosts s db (¬Passes e hosts db) (Looked e hosts db)) := by
  refine leads_group (w := fun r => Function.update s db { s db with role := r })
    (k := fun x => e.leader db x == some true) (fun _ _ => rfl) hhosts
    (Function.update_eq_self db s).symm
    (fun h r _ => by simp [divideByRole, Task.on, Task.within, State.modify])
    (fun r _ => onlyStarts_update hs rfl) fun r hr => ?_
  have hroles : Roles e hosts db r := by
    intro b x
    rw [hr, mem_selected_check hsel (by rw [hdb]) hg, hdb]
    simp only [initial, Groups.none, List.not_mem_nil, false_or, divideByRole, and_assoc]
    refine and_congr_right fun hx => and_congr_right fun halive => ?_
    obtain ⟨leads, hleads⟩ := Option.isSome_iff_exists.mp (hanswers x hx halive)
    rw [hleads]
    cases leads <;> cases b <;> simp
  have hkept : (Function.update s db { s db with role := r } db).hadVolume = g := by
    rw [Function.update_self, hdb]
  refine leads_fatal (fun _ _ => rfl) rfl (onlyStarts_update hs rfl) (fun hleads => ?_)
    fun hfailed => ?_
  · refine leads_nil (.inr ⟨rfl, ⟨g, c, r, ?_, hg, hroles, hall, hanswers, ?_⟩, fun db' hne =>
      Function.update_of_ne hne ..⟩)
    · exact (Function.update_self ..).trans (by rw [hdb])
    · intro x hx halive hfollows
      have hok := hleads x ((mem_selected_check hsel hkept hg).mpr ⟨hx, rfl⟩)
      have hfollower : r false ≠ [] :=
        List.ne_nil_of_mem ((hroles false x).mpr ⟨hx, halive, hfollows⟩)
      have hleader : r true ≠ [] := by
        simpa [failNoLeader, Task.on, Task.within, hfollower] using hok
      obtain ⟨y, hy⟩ := List.exists_mem_of_ne_nil _ hleader
      exact ⟨y, (hroles true y).mp hy⟩
  · obtain ⟨x, _, hfail⟩ := hfailed
    have hnone : r true = [] ∧ r false ≠ [] := by
      simpa [failNoLeader, Task.on, Task.within] using hfail
    obtain ⟨y, hy⟩ := List.exists_mem_of_ne_nil _ hnone.2
    obtain ⟨hhad, halive, hfollows⟩ := (hroles false y).mp hy
    refine .inl ⟨rfl, fun hp => ?_, fun db' => ?_⟩
    · obtain ⟨z, hz⟩ := hp.leads y hhad halive hfollows
      have hmem := (hroles true z).mpr hz
      rw [hnone.1] at hmem
      exact List.not_mem_nil hmem
    · change (Function.update s db { s db with role := r } db').newCluster = (s db').newCluster
      by_cases hne : db' = db
      · rw [hne, Function.update_self]
      · rw [Function.update_of_ne hne]

theorem checks_stage (hhosts : hosts.Nodup) (hsel : Examined e hosts sel)
    (hs : ∀ db, OnlyStarts e hosts db (s db)) {g : Groups Bool H} {c : H → Bool}
    (hdb : s db = { initial e db with hadVolume := g, clusterExists := c })
    (hg : Divided e hosts db g) (hc : ∀ h ∈ sel, c h = (g true != [])) :
    Leads (fun s => ∀ db, OnlyStarts e hosts db (s db)) ((checks e hosts db).map (Task.on · sel))
      ⟨hosts, s⟩ (Stage hosts s db (¬Passes e hosts db) (Looked e hosts db)) := by
  have hmem : ∀ {t : Task H (State H)} {x : H}, x ∈ ((t.within fun s h =>
      ((s db).hadVolume true).contains h).on sel).selected ⟨hosts, s⟩ ↔
        Had e hosts db x ∧ t.when s x = true := mem_selected_check hsel (by rw [hdb]) hg
  have hexists : ∀ {x : H}, Had e hosts db x → (s db).clusterExists x = true := by
    intro x hx
    have hne : g true ≠ [] := List.ne_nil_of_mem (hg.had_iff.mpr hx)
    rw [hdb]
    simp [hc x ((hsel x).mpr ⟨hx.mem, hx.examined⟩), hne]
  refine leads_fatal (fun _ _ => rfl) rfl hs (fun hall => ?_) fun hfailed => ?_
  · have hall : ∀ x, Had e hosts db x → ∀ y ∈ e.group db, y ∈ hosts := by
      intro x hx
      have hok := hall x (hmem.mpr ⟨hx, rfl⟩)
      simpa [checkAllHosts, Task.on, Task.within, hexists hx] using hok
    refine leads_fatal (fun _ _ => rfl) rfl hs (fun hanswers => ?_) fun hfailed => ?_
    · exact roles_stage hhosts hsel hs hdb hg hall fun x hx halive =>
        hanswers x (hmem.mpr ⟨hx, halive⟩)
    · obtain ⟨x, hx, hfail⟩ := hfailed
      refine .inl ⟨rfl, fun hp => ?_, fun _ => rfl⟩
      obtain ⟨hhad, halive⟩ := hmem.mp hx
      have hfail : (e.leader db x).isSome = false := hfail
      rw [hp.answers x hhad halive] at hfail
      exact absurd hfail (by decide)
  · obtain ⟨x, hx, hfail⟩ := hfailed
    have hhad := (hmem.mp hx).1
    refine .inl ⟨rfl, fun hp => ?_, fun _ => rfl⟩
    have hout : ∃ y ∈ e.group db, y ∉ hosts := by
      simpa [checkAllHosts, Task.on, Task.within, hexists hhad] using hfail
    obtain ⟨y, hy, hout⟩ := hout
    exact hout (hp.all x hhad y hy)

end Lookup

/-- The lookup ends with what it found of both databases, or stops the play. -/
theorem lookup_leads (hhosts : hosts.Nodup) :
    Leads (fun s => ∀ db, OnlyStarts e hosts db (s db))
      ((lookupCluster e hosts).enter (startPlay e hosts)) (startPlay e hosts) fun p =>
        p.active = [] ∧ (∃ db, ¬Passes e hosts db) ∧ (∀ db, OnlyStarts e hosts db (p.state db)) ∨
          ∃ s, p = ⟨hosts, s⟩ ∧ ∀ db, Looked e hosts db (s db) := by
  rw [Block.enter]
  generalize hsel : (lookupCluster e hosts).selected (startPlay e hosts) = sel
  have hsel : Examined e hosts sel := fun h => hsel ▸ List.mem_filter
  have hempty : ∀ (db : Db) (d : DbState H), d.newCluster = [] → OnlyStarts e hosts db d :=
    fun db d hd h hh => absurd (hd ▸ hh) List.not_mem_nil
  change Leads _ (([(divideByVolume e .nb).on sel] ++ [(divideByVolume e .sb).on sel]) ++
    (([(establishCluster .nb).on sel] ++ [(establishCluster .sb).on sel]) ++
      ((checks e hosts .nb).map (Task.on · sel) ++ (checks e hosts .sb).map (Task.on · sel)))) _ _
  refine leads_append (both_leads (E := fun _ => False)
    (A := fun db d => d = initial e db)
    (B := fun db d => ∃ g, d = { initial e db with hadVolume := g } ∧ Divided e hosts db g)
    (t := fun db => [(divideByVolume e db).on sel]) ?_ ?_
    (fun db s hdb hs => divideByVolume_stage hhosts hsel hs hdb) fun _ => rfl) ?_
  · rintro db _ rfl
    exact hempty _ _ rfl
  · rintro db _ ⟨g, rfl, -⟩
    exact hempty _ _ rfl
  rintro _ (⟨-, ⟨_, ⟨⟩⟩, -⟩ | ⟨s, rfl, hdivided⟩)
  refine leads_append (both_leads (E := fun _ => False)
    (A := fun db d => ∃ g, d = { initial e db with hadVolume := g } ∧ Divided e hosts db g)
    (B := fun db d => ∃ g c, d = { initial e db with hadVolume := g, clusterExists := c } ∧
      Divided e hosts db g ∧ ∀ h ∈ sel, c h = (g true != []))
    (t := fun db => [(establishCluster db).on sel]) ?_ ?_
    (fun db s ⟨g, hdb, hg⟩ hs => establishCluster_stage hhosts hsel hs hdb hg) hdivided) ?_
  · rintro db _ ⟨g, rfl, -⟩
    exact hempty _ _ rfl
  · rintro db _ ⟨g, c, rfl, -⟩
    exact hempty _ _ rfl
  rintro _ (⟨-, ⟨_, ⟨⟩⟩, -⟩ | ⟨s, rfl, hestablished⟩)
  refine both_leads (A := fun db d => ∃ g c,
      d = { initial e db with hadVolume := g, clusterExists := c } ∧ Divided e hosts db g ∧
        ∀ h ∈ sel, c h = (g true != []))
    (t := fun db => (checks e hosts db).map (Task.on · sel)) ?_ ?_
    (fun db s ⟨g, c, hdb, hg, hc⟩ hs => checks_stage hhosts hsel hs hdb hg hc) hestablished
  · rintro db _ ⟨g, c, rfl, -⟩
    exact hempty _ _ rfl
  · rintro db _ ⟨g, c, r, rfl, -⟩
    exact hempty _ _ rfl

/-! ## The bootstrap -/

section Bootstrap

variable {sel : List H} {s : State H} {db : Db}

/-- The arguments that a host without the volume is given for the database. -/
def remoteArgs (e : Setup H) (db : Db) (r : Groups Bool H) (h : H) : Option H :=
  if r true ≠ [] then (r true).head?
  else if (e.group db).length > 1 ∧ (e.group db).head? ≠ some h then (e.group db).head?
  else none

theorem remoteArgs_none_iff {r : Groups Bool H} (hr : Roles e hosts db r)
    (hpasses : ∀ db, Passes e hosts db) {h : H} (hh : h ∈ hosts) (hgroup : h ∈ e.group db)
    (hlost : e.volume db h = false) : remoteArgs e db r h = none ↔ Starts e hosts db h := by
  rw [remoteArgs]
  by_cases hleader : r true = []
  · -- nobody leads, so nobody is running
    have hstopped : ∀ x, Had e hosts db x → e.alive db x = false := by
      intro x hx
      rw [← Bool.not_eq_true]
      intro halive
      obtain ⟨b, hb⟩ := Option.isSome_iff_exists.mp ((hpasses db).answers x hx halive)
      have hmem : ∃ y, y ∈ r true := by
        cases b with
        | true => exact ⟨x, (hr true x).mpr ⟨hx, halive, hb⟩⟩
        | false =>
          obtain ⟨y, hy⟩ := (hpasses db).leads x hx halive hb
          exact ⟨y, (hr true y).mpr hy⟩
      obtain ⟨y, hy⟩ := hmem
      exact List.ne_nil_of_mem hy hleader
    have hfirst : Starts e hosts db h ↔ (e.group db).head? = some h :=
      ⟨fun hs => hs.first, fun hfirst => ⟨hh, hfirst, hlost, hstopped, hpasses⟩⟩
    rw [if_neg (not_not_intro hleader), hfirst]
    cases hlist : e.group db with
    | nil => exact absurd (hlist ▸ hgroup) List.not_mem_nil
    | cons x l =>
      rw [List.head?_cons, List.length_cons]
      by_cases hx : x = h
      · simp [hx]
      · have hl : 0 < l.length := by
          refine List.length_pos_of_mem (a := h) ?_
          have hmem := hlist ▸ hgroup
          simpa [Ne.symm hx] using hmem
        simp [hx, hl]
  · obtain ⟨y, hy⟩ := List.exists_mem_of_ne_nil _ hleader
    obtain ⟨hhad, halive, -⟩ := (hr true y).mp hy
    rw [if_pos hleader, List.head?_eq_none_iff]
    refine ⟨fun hnil => absurd hnil hleader, fun hs => ?_⟩
    rw [hs.stopped y hhad] at halive
    exact absurd halive (by decide)

/-- The hosts that lost a volume. -/
def Lost (e : Setup H) (hosts sel : List H) : Prop :=
  ∀ h, h ∈ sel ↔ h ∈ hosts ∧ e.examined h = true ∧ ∃ db, e.volume db h = false

/-- They have the arguments for the database, as far as leaders are concerned or altogether. -/
def HasArgs (e : Setup H) (hosts sel : List H) (db : Db) (leaders : Bool) (d : DbState H) : Prop :=
  ∃ g c r a, d = { initial e db with
      hadVolume := g, clusterExists := c, role := r, bootstrapArgs := a } ∧
    Divided e hosts db g ∧ Roles e hosts db r ∧
      ∀ h ∈ sel, e.volume db h = false → (leaders = true ∨ r true = []) → a h = remoteArgs e db r h

theorem newClusterArgs_stage (hhosts : hosts.Nodup) (hsel : Lost e hosts sel)
    (hs : ∀ db, OnlyStarts e hosts db (s db)) (hdb : Looked e hosts db (s db)) :
    Leads (fun s => ∀ db, OnlyStarts e hosts db (s db)) [(newClusterArgs e db).on sel] ⟨hosts, s⟩
      (Stage hosts s db False (HasArgs e hosts sel db false)) := by
  obtain ⟨g, c, r, hdb, hg, hr, hpasses⟩ := hdb
  refine leads_register (w := fun a => Function.update s db { s db with bootstrapArgs := a })
    (v := fun h => if (e.group db).length > 1 ∧ (e.group db).head? ≠ some h then (e.group db).head?
      else none) (fun _ _ => rfl) hhosts (Function.update_eq_self db s).symm
    (fun h a _ => by simp [newClusterArgs, Task.on, State.modify])
    (fun a _ => onlyStarts_update hs rfl)
    fun a ha _ => leads_nil (.inr ⟨rfl, ⟨g, c, r, a, ?_, hg, hr, fun h hh _ hleader => ?_⟩,
      fun db' hne => Function.update_of_ne hne ..⟩)
  · exact (Function.update_self ..).trans (by rw [hdb])
  · have hleader : r true = [] := by simpa using hleader
    have hfollower : r false = [] := by
      by_contra hne
      obtain ⟨x, hx⟩ := List.exists_mem_of_ne_nil _ hne
      obtain ⟨hhad, halive, hfollows⟩ := (hr false x).mp hx
      obtain ⟨y, hy⟩ := hpasses.leads x hhad halive hfollows
      exact List.ne_nil_of_mem ((hr true y).mpr hy) hleader
    rw [remoteArgs, if_neg (not_not_intro hleader)]
    refine ha h (Task.mem_selected_on.mpr ⟨((hsel h).mp hh).1, hh, ?_⟩)
    simp [newClusterArgs, hdb, hleader, hfollower]

theorem newMemberArgs_stage (hhosts : hosts.Nodup) (hsel : Lost e hosts sel)
    (hs : ∀ db, OnlyStarts e hosts db (s db)) (hdb : HasArgs e hosts sel db false (s db)) :
    Leads (fun s => ∀ db, OnlyStarts e hosts db (s db)) [(newMemberArgs db).on sel] ⟨hosts, s⟩
      (Stage hosts s db False (HasArgs e hosts sel db true)) := by
  obtain ⟨g, c, r, a₀, hdb, hg, hr, ha₀⟩ := hdb
  refine leads_register (w := fun a => Function.update s db { s db with bootstrapArgs := a })
    (v := fun _ => (r true).head?) (fun _ _ => rfl) hhosts (Function.update_eq_self db s).symm
    (fun h a _ => by simp [newMemberArgs, Task.on, State.modify, hdb])
    (fun a _ => onlyStarts_update hs rfl)
    fun a ha ha' => leads_nil (.inr ⟨rfl, ⟨g, c, r, a, ?_, hg, hr, fun h hh hlost _ => ?_⟩,
      fun db' hne => Function.update_of_ne hne ..⟩)
  · exact (Function.update_self ..).trans (by rw [hdb])
  · have hmem : h ∈ hosts ∧ e.examined h = true := ⟨((hsel h).mp hh).1, ((hsel h).mp hh).2.1⟩
    by_cases hleader : r true = []
    · rw [ha' h, hdb]
      · exact ha₀ h hh hlost (.inr hleader)
      · rw [Task.mem_selected_on]
        simp [newMemberArgs, hdb, hleader]
    · rw [remoteArgs, if_pos hleader]
      refine ha h (Task.mem_selected_on.mpr ⟨hmem.1, hh, ?_⟩)
      simp only [newMemberArgs, hdb, Bool.and_eq_true, List.contains_iff_mem, bne_iff_ne]
      exact ⟨(hg false h).mpr ⟨hmem.1, hmem.2, hlost⟩, hleader⟩

/-- The command of the containers is known, and where they are to be restarted. -/
structure Configured (e : Setup H) (hosts sel : List H) (db : Db) (d : DbState H) : Prop where
  noNew : d.newCluster = []
  volume : d.volume = e.volume db
  within : ∀ h, d.notified h = true → h ∈ e.group db
  notified : ∀ h ∈ sel, h ∈ e.group db → e.volume db h = false → d.notified h = true
  command : ∀ h ∈ sel, h ∈ e.group db → e.volume db h = false →
    (d.command h = none ↔ Starts e hosts db h)

/-- The configuration of the hosts has been copied. -/
def Copied (e : Setup H) (done : List H) (db : Db) (d d' : DbState H) : Prop :=
  ∃ c, d' = { d with command := c } ∧ ∀ h ∈ done, h ∈ e.group db → c h = d.bootstrapArgs h

theorem copyConfig_leads {Mid : State H → Prop} (hhosts : hosts.Nodup)
    (hsel : ∀ h ∈ sel, h ∈ hosts) {ts : List (Task H (State H))} {Q : Play H (State H) → Prop}
    (hmid : ∀ done s', (∀ db, Copied e done db (s db) (s' db)) → Mid s')
    (hnext : ∀ s', (∀ db, Copied e sel db (s db) (s' db)) → Leads Mid ts ⟨hosts, s'⟩ Q) :
    Leads Mid ((copyConfig e).on sel :: ts) ⟨hosts, s⟩ Q := by
  refine leads_run (J := fun done s' => ∀ db, Copied e done db (s db) (s' db)) (fun _ _ => rfl)
    hhosts (fun db => ⟨(s db).command, rfl, by simp⟩) ?_ hmid fun done s' hperm hJ => ?_
  · intro done h s' _ _ hJ db
    obtain ⟨c, hdb, hc⟩ := hJ db
    by_cases hgroup : h ∈ e.group db
    · refine ⟨Function.update c h ((s db).bootstrapArgs h),
        by simp [copyConfig, Task.on, hgroup, hdb], fun x hx hgroup => ?_⟩
      by_cases hxh : x = h
      · rw [hxh, Function.update_self]
      · rw [Function.update_of_ne hxh]
        exact hc x (by simpa [hxh] using hx) hgroup
    · refine ⟨c, by simp [copyConfig, Task.on, hgroup, hdb], fun x hx hgroup' => ?_⟩
      have hxh : x ≠ h := fun hxh => hgroup (hxh ▸ hgroup')
      exact hc x (by simpa [hxh] using hx) hgroup'
  · refine hnext s' fun db => (hJ db).imp fun c hc => ⟨hc.1, fun h hh => hc.2 h ?_⟩
    exact hperm.mem_iff.mpr (Task.mem_selected_on.mpr ⟨hsel h hh, hh, rfl⟩)

/-- The containers of the hosts have been checked. -/
def Checked (e : Setup H) (done : List H) (db : Db) (d d' : DbState H) : Prop :=
  ∃ n, d' = { d with notified := n } ∧ (∀ h, n h = true → d.notified h = true ∨ h ∈ e.group db) ∧
    ∀ h ∈ done, h ∈ e.group db → d.volume h = false → n h = true

theorem checkContainers_leads {Mid : State H → Prop} (hhosts : hosts.Nodup)
    (hsel : ∀ h ∈ sel, h ∈ hosts) {ts : List (Task H (State H))} {Q : Play H (State H) → Prop}
    (hmid : ∀ done s', (∀ db, Checked e done db (s db) (s' db)) → Mid s')
    (hnext : ∀ s', (∀ db, Checked e sel db (s db) (s' db)) → Leads Mid ts ⟨hosts, s'⟩ Q) :
    Leads Mid ((checkContainers e).on sel :: ts) ⟨hosts, s⟩ Q := by
  refine leads_run (J := fun done s' => ∀ db, Checked e done db (s db) (s' db)) (fun _ _ => rfl)
    hhosts (fun db => ⟨(s db).notified, rfl, fun _ => .inl, by simp⟩) ?_ hmid
    fun done s' hperm hJ => ?_
  · intro done h s' _ _ hJ db
    obtain ⟨n, hdb, hn, hdone⟩ := hJ db
    by_cases hcheck : h ∈ e.group db ∧ ((s db).volume h = false ∨ e.differs db h = true ∨
        (s db).running h ≠ (s db).command h)
    · refine ⟨Function.update n h true, by simp [checkContainers, Task.on, hcheck, hdb, or_assoc],
        fun x hx => ?_, fun x hx hgroup hvolume => ?_⟩
      · by_cases hxh : x = h
        · exact .inr (hxh ▸ hcheck.1)
        · rw [Function.update_of_ne hxh] at hx
          exact hn x hx
      · by_cases hxh : x = h
        · rw [hxh, Function.update_self]
        · rw [Function.update_of_ne hxh]
          exact hdone x (by simpa [hxh] using hx) hgroup hvolume
    · refine ⟨n, ?_, hn, fun x hx hgroup hvolume => ?_⟩
      · have hrun : ((checkContainers e).on sel).run h s' db = s' db :=
          if_neg (by simpa [hdb, or_assoc] using hcheck)
        rw [hrun, hdb]
      · have hxh : x ≠ h := fun hxh => hcheck (hxh ▸ ⟨hgroup, .inl hvolume⟩)
        exact hdone x (by simpa [hxh] using hx) hgroup hvolume
  · refine hnext s' fun db => (hJ db).imp fun n hn => ⟨hn.1, hn.2.1, fun h hh => hn.2.2 h ?_⟩
    exact hperm.mem_iff.mpr (Task.mem_selected_on.mpr ⟨hsel h hh, hh, rfl⟩)

/-- The containers of these hosts have been restarted, where the handler was notified. -/
structure Restarted (done : List H) (d d' : DbState H) : Prop where
  new : ∀ h, h ∈ d'.newCluster ↔ h ∈ d.newCluster ∨
    h ∈ done ∧ d.volume h = false ∧ d.command h = none
  volume : ∀ h, d'.volume h = true ↔ d.volume h = true ∨ h ∈ done
  notified : ∀ h, d'.notified h = true → d.notified h = true
  command : d'.command = d.command

omit [DecidableEq H] in
theorem Restarted.refl (d : DbState H) : Restarted [] d d :=
  ⟨fun _ => by simp, fun _ => by simp, fun _ => id, rfl⟩

theorem restart_step {done : List H} {d d' : DbState H} {h : H} (hd : Restarted done d d')
    (hnot : h ∉ done) : Restarted (done ++ [h]) d { d' with
      notified := Function.update d'.notified h false
      volume := Function.update d'.volume h true
      running := Function.update d'.running h (d'.command h)
      newCluster := if !d'.volume h && d'.command h == none then d'.newCluster ++ [h]
        else d'.newCluster } := by
  have hvolume : d'.volume h = d.volume h := by
    rw [Bool.eq_iff_iff, hd.volume]
    simp [hnot]
  refine ⟨fun x => ?_, fun x => ?_, fun x hx => ?_, hd.command⟩
  · by_cases hxh : x = h
    · subst hxh
      by_cases hnew : d.volume x = false ∧ d.command x = none
      · simp [hvolume, hd.command, hnew]
      · have hcond : (!d'.volume x && d'.command x == none) = false := by
          rw [hvolume, hd.command, Bool.eq_false_iff]
          simpa using hnew
        rw [hcond]
        simp [hd.new, hnot, hnew]
    · split
      · simp [hd.new, hxh]
      · simp [hd.new, hxh]
  · by_cases hxh : x = h
    · simp [hxh]
    · simp [hd.volume, hxh]
  · by_cases hxh : x = h
    · simp [hxh] at hx
    · exact hd.notified x (by simpa [Function.update_of_ne hxh] using hx)

theorem restart_stage (hhosts : hosts.Nodup) (hs : ∀ db, OnlyStarts e hosts db (s db))
    (hok : ∀ h ∈ sel, (s db).notified h = true → (s db).volume h = false →
      (s db).command h = none → Starts e hosts db h) :
    Leads (fun s => ∀ db, OnlyStarts e hosts db (s db)) [(restart db).on sel] ⟨hosts, s⟩
      (Stage hosts s db False fun d => ∃ done, (∀ h, h ∈ done ↔
        h ∈ hosts ∧ h ∈ sel ∧ (s db).notified h = true) ∧ Restarted done (s db) d) := by
  have hmem : ∀ {h}, h ∈ ((restart db).on sel).selected ⟨hosts, s⟩ ↔
      h ∈ hosts ∧ h ∈ sel ∧ (s db).notified h = true := Task.mem_selected_on
  refine leads_run (J := fun done s' => (∀ h ∈ done, h ∈ sel ∧ (s db).notified h = true) ∧
    Restarted done (s db) (s' db) ∧ ∀ db', db' ≠ db → s' db' = s db') (fun _ _ => rfl) hhosts
    ⟨by simp, .refl _, fun _ _ => rfl⟩ ?_ ?_ fun done s' hperm hJ => ?_
  · intro done h s' hh hnot ⟨hdone, hd, hother⟩
    have hrun : ((restart db).on sel).run h s' db = _ := Function.update_self ..
    refine ⟨fun x hx => ?_, hrun ▸ restart_step hd hnot, fun db' hne => ?_⟩
    · rcases List.mem_append.mp hx with hx | hx
      · exact hdone x hx
      · rw [List.mem_singleton.mp hx]
        exact (hmem.mp hh).2
    · exact (Function.update_of_ne hne ..).trans (hother db' hne)
  · intro done s' ⟨hdone, hd, hother⟩ db'
    by_cases hne : db' = db
    · subst hne
      intro h hh
      rcases (hd.new h).mp hh with hh | ⟨hh, hlost, hcommand⟩
      · exact hs db' h hh
      · exact hok h (hdone h hh).1 (hdone h hh).2 hlost hcommand
    · rw [hother db' hne]
      exact hs db'
  · exact leads_nil (.inr ⟨rfl, ⟨done, fun h => hperm.mem_iff.trans hmem, hJ.2.1⟩, hJ.2.2⟩)

/-- The containers run on all hosts that take part, and new clusters where they had to. -/
structure Done (e : Setup H) (hosts : List H) (db : Db) (d : DbState H) : Prop where
  new : ∀ h, h ∈ d.newCluster ↔ Starts e hosts db h
  volume : ∀ h ∈ hosts, h ∈ e.group db → d.volume h = true
  within : ∀ h, d.notified h = true → h ∈ e.group db

theorem Starts.mem_group {h : H} (hs : Starts e hosts db h) : h ∈ e.group db :=
  List.mem_of_mem_head? (by rw [hs.first]; rfl)

theorem examined_of_mem {h : H} (hgroup : h ∈ e.group db) : e.examined h = true := by
  rw [Setup.examined, Bool.or_eq_true, List.contains_iff_mem, List.contains_iff_mem]
  cases db with
  | nb => exact .inl hgroup
  | sb => exact .inr hgroup

theorem done_of_restarted (hsel : Lost e hosts sel) {d d' : DbState H} {done : List H}
    (hd : Configured e hosts sel db d)
    (hdone : ∀ h, h ∈ done ↔ h ∈ hosts ∧ h ∈ sel ∧ d.notified h = true)
    (hrestarted : Restarted done d d') : Done e hosts db d' := by
  have hmem : ∀ h ∈ hosts, h ∈ e.group db → e.volume db h = false → h ∈ sel :=
    fun h hh hgroup hlost => (hsel h).mpr ⟨hh, examined_of_mem hgroup, db, hlost⟩
  refine ⟨fun h => ?_, fun h hh hgroup => ?_, fun h hh => hd.within h (hrestarted.notified h hh)⟩
  · rw [hrestarted.new, hd.noNew, hdone, hd.volume]
    constructor
    · rintro (hnil | ⟨⟨_, hsel, hnotified⟩, hlost, hcommand⟩)
      · exact absurd hnil List.not_mem_nil
      · exact (hd.command h hsel (hd.within h hnotified) hlost).mp hcommand
    · intro hs
      have hsel : h ∈ sel := hmem h hs.mem hs.mem_group hs.lost
      exact .inr ⟨⟨hs.mem, hsel, hd.notified h hsel hs.mem_group hs.lost⟩, hs.lost,
        (hd.command h hsel hs.mem_group hs.lost).mpr hs⟩
  · rw [hrestarted.volume, hd.volume, hdone]
    by_cases hlost : e.volume db h = true
    · exact .inl hlost
    · have hlost : e.volume db h = false := by simpa using hlost
      have hsel : h ∈ sel := hmem h hh hgroup hlost
      exact .inr ⟨hh, hsel, hd.notified h hsel hgroup hlost⟩

theorem lost_selected (hs : ∀ db, Looked e hosts db (s db)) :
    Lost e hosts ((bootstrapInitial e).selected ⟨hosts, s⟩) := by
  intro h
  have hfalse : ∀ db, ((s db).hadVolume false).contains h = true ↔
      h ∈ hosts ∧ e.examined h = true ∧ e.volume db h = false := by
    intro db
    obtain ⟨g, c, r, hdb, hg, -, -⟩ := hs db
    rw [List.contains_iff_mem, hdb, hg]
  rw [Block.selected, List.mem_filter, bootstrapInitial, Bool.or_eq_true, hfalse, hfalse]
  constructor
  · rintro ⟨hh, ⟨_, hex, hvolume⟩ | ⟨_, hex, hvolume⟩⟩
    · exact ⟨hh, hex, .nb, hvolume⟩
    · exact ⟨hh, hex, .sb, hvolume⟩
  · rintro ⟨hh, hex, db, hvolume⟩
    cases db with
    | nb => exact ⟨hh, .inl ⟨hh, hex, hvolume⟩⟩
    | sb => exact ⟨hh, .inr ⟨hh, hex, hvolume⟩⟩

/-- What the containers are restarted with, once the arguments have been copied. -/
theorem configured_of_args (hpasses : ∀ db, Passes e hosts db) (hsub : ∀ h ∈ sel, h ∈ hosts)
    {d d₁ d₂ : DbState H} (hargs : HasArgs e hosts sel db true d) (hcopied : Copied e sel db d d₁)
    (hchecked : Checked e sel db d₁ d₂) : Configured e hosts sel db d₂ := by
  obtain ⟨g, c, r, a, rfl, hg, hr, ha⟩ := hargs
  obtain ⟨command, rfl, hcommand⟩ := hcopied
  obtain ⟨n, rfl, hn, hnotified⟩ := hchecked
  refine ⟨rfl, rfl, fun h hh => (hn h hh).resolve_left (by simp [initial]), hnotified,
    fun h hh hgroup hvolume => ?_⟩
  rw [← remoteArgs_none_iff hr hpasses (hsub h hh) hgroup hvolume, ← ha h hh hvolume (.inl rfl)]
  exact iff_of_eq (congrArg (· = none) (hcommand h hh hgroup))

theorem bootstrapInitial_leads (hhosts : hosts.Nodup) (hs : ∀ db, Looked e hosts db (s db)) :
    Leads (fun s => ∀ db, OnlyStarts e hosts db (s db))
      ((bootstrapInitial e).enter ⟨hosts, s⟩) ⟨hosts, s⟩ fun p =>
        ∃ s, p = ⟨hosts, s⟩ ∧ ∀ db, Done e hosts db (s db) := by
  have hpasses : ∀ db, Passes e hosts db := fun db => by
    obtain ⟨_, _, _, _, _, _, hpasses⟩ := hs db
    exact hpasses
  have hlost := lost_selected hs
  rw [Block.enter]
  generalize (bootstrapInitial e).selected ⟨hosts, s⟩ = sel at hlost ⊢
  have hsub : ∀ h ∈ sel, h ∈ hosts := fun h hh => ((hlost h).mp hh).1
  have hempty : ∀ (db : Db) (d : DbState H), d.newCluster = [] → OnlyStarts e hosts db d :=
    fun db d hd h hh => absurd (hd ▸ hh) List.not_mem_nil
  have hargs : ∀ {leaders : Bool} db d, HasArgs e hosts sel db leaders d →
      OnlyStarts e hosts db d := by
    rintro leaders db _ ⟨_, _, _, _, rfl, -⟩
    exact hempty _ _ rfl
  change Leads _ (([(newClusterArgs e .nb).on sel] ++ [(newClusterArgs e .sb).on sel]) ++
    (([(newMemberArgs .nb).on sel] ++ [(newMemberArgs .sb).on sel]) ++
      ((copyConfig e).on sel :: (checkContainers e).on sel ::
        (([(restart .nb).on sel] ++ [(restart .sb).on sel]) ++ [unsetArgs.on sel])))) _ _
  refine leads_append (both_leads (E := fun _ => False) (A := Looked e hosts)
    (B := fun db => HasArgs e hosts sel db false) (t := fun db => [(newClusterArgs e db).on sel])
    ?_ hargs (fun db s hdb hs => newClusterArgs_stage hhosts hlost hs hdb) hs) ?_
  · rintro db _ ⟨_, _, _, rfl, -⟩
    exact hempty _ _ rfl
  rintro _ (⟨-, ⟨_, ⟨⟩⟩, -⟩ | ⟨s, rfl, hs⟩)
  refine leads_append (both_leads (E := fun _ => False)
    (A := fun db => HasArgs e hosts sel db false) (B := fun db => HasArgs e hosts sel db true)
    (t := fun db => [(newMemberArgs db).on sel]) hargs hargs
    (fun db s hdb hs => newMemberArgs_stage hhosts hlost hs hdb) hs) ?_
  rintro _ (⟨-, ⟨_, ⟨⟩⟩, -⟩ | ⟨s, rfl, hs⟩)
  have hnoNew : ∀ db, (s db).newCluster = [] := fun db => by
    obtain ⟨_, _, _, _, hdb, -⟩ := hs db
    rw [show s db = _ from hdb]
    rfl
  refine copyConfig_leads hhosts hsub (fun _ s' hs' db => ?_) fun s₁ hs₁ =>
    checkContainers_leads hhosts hsub (fun _ s' hs' db => ?_) fun s₂ hs₂ => ?_
  · obtain ⟨c, hdb, -⟩ := hs' db
    exact hempty _ _ (by rw [hdb]; exact hnoNew db)
  · obtain ⟨c, hdb, -⟩ := hs₁ db
    obtain ⟨n, hdb', -⟩ := hs' db
    exact hempty _ _ (by rw [hdb', hdb]; exact hnoNew db)
  have hconfigured : ∀ db, Configured e hosts sel db (s₂ db) :=
    fun db => configured_of_args hpasses hsub (hs db) (hs₁ db) (hs₂ db)
  refine leads_append (both_leads (E := fun _ => False) (A := Configured e hosts sel)
    (B := Done e hosts) (t := fun db => [(restart db).on sel]) ?_ ?_ ?_ hconfigured) ?_
  · exact fun db d hd => hempty db d hd.noNew
  · exact fun db d hd h hh => (hd.new h).mp hh
  · intro db s hdb hs
    refine (restart_stage hhosts hs fun h hh hnotified hvolume hcommand => ?_).mono ?_
    · rw [hdb.volume] at hvolume
      exact (hdb.command h hh (hdb.within h hnotified) hvolume).mp hcommand
    · refine fun q hq => hq.imp id fun ⟨hactive, ⟨done, hdone, hd⟩, hother⟩ =>
        ⟨hactive, done_of_restarted hlost hdb hdone hd, hother⟩
  rintro _ (⟨-, ⟨_, ⟨⟩⟩, -⟩ | ⟨s, rfl, hs⟩)
  refine leads_run (J := fun _ s => ∀ db, Done e hosts db (s db)) (fun _ _ => rfl) hhosts hs
    (fun _ _ _ _ _ hJ db => ⟨(hJ db).new, (hJ db).volume, (hJ db).within⟩)
    (fun _ _ hJ db h hh => ((hJ db).new h).mp hh) fun _ _ _ hJ => leads_nil ⟨_, rfl, hJ⟩

end Bootstrap

/-! ## The deploy -/

theorem neverTwice_of_onlyStarts {s : State H} (hs : ∀ db, OnlyStarts e hosts db (s db))
    (hclean : ∀ db h, Starts e hosts db h → ∀ x ∈ e.group db, e.volume db x = false) :
    NeverTwice e s := by
  intro db h hh
  refine ⟨fun x hx => ?_, hclean db h (hs db h hh)⟩
  have hfirst := (hs db x hx).first
  rw [(hs db h hh).first] at hfirst
  exact (Option.some.inj hfirst).symm

/-- A container that has a volume is restarted. -/
theorem restart_done {s : State H} {db : Db} (hs : ∀ db, Done e hosts db (s db)) {h : H}
    (hh : h ∈ hosts) (hgroup : h ∈ e.group db) (db' : Db) :
    Done e hosts db' ((restart db).run h s db') := by
  by_cases hne : db' = db
  · subst hne
    have hvolume : (s db').volume h = true := (hs db').volume h hh hgroup
    have hrun : (restart db').run h s db' = { s db' with
        notified := Function.update (s db').notified h false
        volume := Function.update (s db').volume h true
        running := Function.update (s db').running h ((s db').command h) } := by
      simp [restart, State.modify, hvolume]
    rw [hrun]
    refine ⟨(hs db').new, fun x hx hgroup => ?_, fun x hx => (hs db').within x ?_⟩
    · by_cases hxh : x = h
      · simp [hxh]
      · simpa [hxh] using (hs db').volume x hx hgroup
    · by_cases hxh : x = h
      · simp [hxh] at hx
      · simpa [hxh] using hx
  · have hrun : (restart db).run h s db' = s db' := Function.update_of_ne hne ..
    rw [hrun]
    exact hs db'

/-- The last block: all containers have a volume by then. -/
theorem startContainers_always {Safe : State H → Prop} (hhosts : hosts.Nodup) {s : State H}
    (hs : ∀ db, Done e hosts db (s db)) (hsafe : ∀ s, (∀ db, Done e hosts db (s db)) → Safe s) :
    Always (fun p => Safe p.state) [] [{ tasks := startContainers e }] ⟨hosts, s⟩ := by
  have hrestart : ∀ {l : List H} {s₀ : State H} (db : Db), (∀ db, Done e hosts db (s₀ db)) →
      ∀ h s, h ∈ ((restart db).on l).selected ⟨hosts, s₀⟩ → (∀ db, Done e hosts db (s db)) →
        ∀ db', Done e hosts db' (((restart db).on l).run h s db') := by
    intro l s₀ db hs₀ h s hsel hs
    obtain ⟨hh, -, hnotified⟩ := Task.mem_selected_on.mp hsel
    exact restart_done hs hh ((hs₀ db).within h hnotified)
  refine always_enter (always_keep (P := fun s => ∀ db, Done e hosts db (s db)) (fun _ _ => rfl)
    hhosts hs ?_ hsafe fun s hs => always_keep (P := fun s => ∀ db, Done e hosts db (s db))
    (fun _ _ => rfl) hhosts hs ?_ hsafe fun s hs => ?_)
  · intro h s _ hs db
    by_cases hgroup : h ∈ e.group db
    · have hrun : (copyConfig e).run h s db = _ := if_pos (List.contains_iff_mem.mpr hgroup)
      exact hrun ▸ ⟨(hs db).new, (hs db).volume, (hs db).within⟩
    · have hrun : (copyConfig e).run h s db = s db :=
        if_neg fun hmem => hgroup (List.contains_iff_mem.mp hmem)
      exact hrun ▸ hs db
  · intro h s _ hs db
    by_cases hcheck : ((e.group db).contains h && (!(s db).volume h || e.differs db h ||
        (s db).running h != (s db).command h)) = true
    · have hrun : (checkContainers e).run h s db = _ := if_pos hcheck
      refine hrun ▸ ⟨(hs db).new, (hs db).volume, fun x hx => ?_⟩
      by_cases hxh : x = h
      · rw [hxh]
        exact List.contains_iff_mem.mp (Bool.and_eq_true_iff.mp hcheck).1
      · exact (hs db).within x (by simpa [hxh] using hx)
    · have hrun : (checkContainers e).run h s db = s db := if_neg hcheck
      exact hrun ▸ hs db
  · refine always_keep (P := fun s => ∀ db, Done e hosts db (s db)) (fun _ _ => rfl) hhosts hs
      (hrestart .nb hs) hsafe fun s hs => ?_
    exact always_keep (P := fun s => ∀ db, Done e hosts db (s db)) (fun _ _ => rfl) hhosts hs
      (hrestart .sb hs) hsafe fun s hs => always_nil (hsafe s hs)

/-- Every host that has to starts a new cluster, so the group has no volume. -/
theorem clean_of_neverTwice (hhosts : hosts.Nodup) (h : Throughout e hosts (NeverTwice e)) {db : Db}
    {x : H} (hx : Starts e hosts db x) : ∀ y ∈ e.group db, e.volume db y = false := by
  obtain ⟨p, hp | ⟨s, rfl, hs⟩, h⟩ := (lookup_leads hhosts).exists_run h.enter
  · obtain ⟨-, ⟨db', hstop⟩, -⟩ := hp
    exact absurd (hx.passes db') hstop
  · obtain ⟨_, ⟨s, rfl, hs⟩, h⟩ := (bootstrapInitial_leads hhosts hs).exists_run h.enter
    exact (h.now db x (((hs db).new x).mpr hx)).2

/-- A database is initialised twice exactly when the first host of its group lost the volume, the
play does not stop, and the hosts that have the volume take no part or are not running. -/
theorem neverTwice_iff (e : Setup H) (hhosts : hosts.Nodup) :
    Throughout e hosts (NeverTwice e) ↔
      ∀ db h, Starts e hosts db h → ∀ x ∈ e.group db, e.volume db x = false := by
  refine ⟨fun h db x => clean_of_neverTwice hhosts h, fun hclean => ?_⟩
  have hsafe : ∀ s : State H, (∀ db, OnlyStarts e hosts db (s db)) → NeverTwice e s :=
    fun s hs => neverTwice_of_onlyStarts hs hclean
  refine always_enter ((lookup_leads hhosts).always hsafe ?_)
  rintro p (⟨hp, -, hs⟩ | ⟨s, rfl, hs⟩)
  · obtain ⟨l, s⟩ := p
    obtain rfl : l = [] := hp
    exact always_stopped (hsafe s hs)
  · refine always_enter ((bootstrapInitial_leads hhosts hs).always hsafe ?_)
    rintro _ ⟨s, rfl, hs⟩
    exact startContainers_always hhosts hs fun s hs =>
      hsafe s fun db h hh => ((hs db).new h).mp hh

/-- The first of three hosts lost its volumes; the second leads, if the databases are running. -/
def lostFirst (alive : Bool) : Setup (Fin 3) where
  group _ := List.finRange 3
  volume _ h := h.val != 0
  alive _ h := alive && h.val != 0
  leader _ h := some (h.val == 1)
  differs _ _ := false
  running _ _ := none

theorem lostFirst_neverTwice :
    Throughout (lostFirst true) [0, 1, 2] (NeverTwice (lostFirst true)) := by
  refine (neverTwice_iff (lostFirst true) (by decide)).mpr fun db h hs => ?_
  have hleader : Had (lostFirst true) [0, 1, 2] db 1 := ⟨by decide, by decide, rfl⟩
  exact absurd (hs.stopped 1 hleader) (by simp [lostFirst])

/-- Without a running database, or in a play without the others, it starts a cluster of its own. -/
theorem lostFirst_twice :
    ¬Throughout (lostFirst false) [0, 1, 2] (NeverTwice (lostFirst false)) ∧
      ¬Throughout (lostFirst true) [0] (NeverTwice (lostFirst true)) := by
  constructor
  · intro h
    have hpasses : ∀ db, Passes (lostFirst false) [0, 1, 2] db := fun db =>
      ⟨fun _ _ y hy => hy, fun _ _ _ => rfl, fun x _ halive => by simp [lostFirst] at halive⟩
    have hs : Starts (lostFirst false) [0, 1, 2] .nb 0 :=
      ⟨by decide, rfl, rfl, fun _ _ => rfl, hpasses⟩
    exact absurd (clean_of_neverTwice (by decide) h hs 1 (by decide)) (by decide)
  · intro h
    have hnone : ∀ db x, ¬Had (lostFirst true) [0] db x := by
      intro db x hx
      have hvolume := hx.volume
      rw [List.mem_singleton.mp hx.mem] at hvolume
      simp [lostFirst] at hvolume
    have hpasses : ∀ db, Passes (lostFirst true) [0] db := fun db =>
      ⟨fun x hx => absurd hx (hnone db x), fun x hx => absurd hx (hnone db x),
        fun x hx => absurd hx (hnone db x)⟩
    have hs : Starts (lostFirst true) [0] .nb 0 :=
      ⟨by decide, rfl, rfl, fun x hx => absurd hx (hnone .nb x), hpasses⟩
    exact absurd (clean_of_neverTwice (by decide) h hs 1 (by decide)) (by decide)

end Ovn
end KollaPowerOps
