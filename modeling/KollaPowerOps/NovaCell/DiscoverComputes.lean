import Mathlib.Data.List.Basic

/-!
# NovaCell.DiscoverComputes

The compute services that the role `nova-cell` waits for before it discovers the hosts of a cell.

* `expectedServiceHosts` : the list that is waited for.
* `fails`                : whether the task that follows fails a host of the batch.
* `discovers_iff`        : when the two are about each host's own services.
-/

namespace KollaPowerOps
namespace NovaCell

abbrev Text := List Char

/-- A host of the play batch. -/
structure Host where
  nodename : Text
  hostname : Text
  /-- `nova_compute_ironic_custom_host` -/
  customHost : Option Text := none
  /-- in the group of the virtualised compute hosts of the cell -/
  virt : Bool := false
  /-- in the group of the ironic compute hosts of the cell -/
  ironic : Bool := false

structure Batch where
  hosts : List Host

/-- `regex_replace('^(.*)$', '\1-ironic')`, for a name of one line. -/
def withIronic (name : Text) : Text := name ++ "-ironic".toList

/-- `a || b` of JMESPath, for lists. -/
def jmesOr (a b : List Text) : List Text := if a.isEmpty then b else a

namespace Batch

variable (b : Batch)

/-- `virt_compute_service_hosts` -/
def virtServiceHosts : List Text := (b.hosts.filter Host.virt).map Host.nodename

/-- `ironic_compute_service_hosts`; a projection drops nulls. -/
def ironicServiceHosts : List Text :=
  let ironic := b.hosts.filter Host.ironic
  (jmesOr (ironic.filterMap Host.customHost) (ironic.map Host.hostname)).map withIronic

def expectedServiceHosts : List Text := b.virtServiceHosts ++ b.ironicServiceHosts

/-- `failed_compute_service_hosts`, for the services that are registered. -/
def failedServiceHosts (registered : List Text) : List Text :=
  b.expectedServiceHosts.filter fun name => !registered.contains name

/-- The condition of `Fail if nova-compute service failed to register`, on a host. -/
def fails (registered : List Text) (fatal : Bool) (h : Host) : Bool :=
  let failed := b.failedServiceHosts registered
  failed.contains h.nodename || failed.contains (withIronic h.hostname) ||
    (fatal && !failed.isEmpty)

end Batch

/-! ## The services of a host -/

namespace Host

/-- The `host` that `nova.conf` gives to the ironic compute service. -/
def ironicServiceHost (h : Host) : Text := withIronic (h.customHost.getD h.hostname)

/-- The service hosts of a host. -/
def own (h : Host) : List Text :=
  (if h.virt then [h.nodename] else []) ++ if h.ironic then [h.ironicServiceHost] else []

/-- The names by which the task looks for a host. -/
def lookedFor (h : Host) : List Text := [h.nodename, withIronic h.hostname]

end Host

/-- The list has the service hosts of the batch, and the task fails whom it should. -/
structure Discovers (b : Batch) : Prop where
  expected : ∀ name, name ∈ b.expectedServiceHosts ↔ ∃ h ∈ b.hosts, name ∈ h.own
  failing : ∀ registered fatal, ∀ h ∈ b.hosts, b.fails registered fatal h = true ↔
    (∃ name ∈ h.own, name ∉ registered) ∨
      (fatal = true ∧ ∃ h' ∈ b.hosts, ∃ name ∈ h'.own, name ∉ registered)

/-- Beside custom hosts the list has no other ironic host, unless its service host stands there
under another name. -/
def Listed (b : Batch) : Prop :=
  (∀ h ∈ b.hosts, h.ironic = true → h.customHost = none) ∨
    ∀ h ∈ b.hosts, h.ironic = true → h.customHost = none →
      h.ironicServiceHost ∈ b.virtServiceHosts ∨
        ∃ h' ∈ b.hosts, h'.ironic = true ∧ h'.customHost ≠ none ∧
          h'.ironicServiceHost = h.ironicServiceHost

/-- The service hosts of the batch that a host is looked for by are its own. -/
def KnownByName (b : Batch) : Prop :=
  ∀ h ∈ b.hosts, ∀ h' ∈ b.hosts, ∀ name ∈ h'.own, name ∈ h.lookedFor ↔ name ∈ h.own

/-! ## The list -/

variable {b : Batch}

theorem mem_virtServiceHosts {name : Text} :
    name ∈ b.virtServiceHosts ↔ ∃ h ∈ b.hosts, h.virt = true ∧ h.nodename = name := by
  simp only [Batch.virtServiceHosts, List.mem_map, List.mem_filter, and_assoc]

theorem mem_own {h : Host} {name : Text} : name ∈ h.own ↔
    (h.virt = true ∧ name = h.nodename) ∨ (h.ironic = true ∧ name = h.ironicServiceHost) := by
  rw [Host.own, List.mem_append]
  cases h.virt <;> cases h.ironic <;> simp

/-- Where a host has a custom name, those alone are listed. -/
theorem mem_ironicServiceHosts {name : Text} : name ∈ b.ironicServiceHosts ↔
    ∃ h ∈ b.hosts, h.ironic = true ∧ h.ironicServiceHost = name ∧
      (h.customHost = none → ∀ h' ∈ b.hosts, h'.ironic = true → h'.customHost = none) := by
  have hcustom : (b.hosts.filter Host.ironic).filterMap Host.customHost = [] ↔
      ∀ h ∈ b.hosts, h.ironic = true → h.customHost = none := by
    simp only [List.filterMap_eq_nil_iff, List.mem_filter, and_imp]
  rw [Batch.ironicServiceHosts, jmesOr]
  simp only [List.isEmpty_iff, hcustom]
  split
  · rename_i hnone
    simp only [List.mem_map, List.mem_filter]
    constructor
    · rintro ⟨_, ⟨h, ⟨hmem, hironic⟩, rfl⟩, rfl⟩
      refine ⟨h, hmem, hironic, ?_, fun _ => hnone⟩
      rw [Host.ironicServiceHost, hnone h hmem hironic, Option.getD_none]
    · rintro ⟨h, hmem, hironic, rfl, -⟩
      refine ⟨h.hostname, ⟨h, ⟨hmem, hironic⟩, rfl⟩, ?_⟩
      rw [Host.ironicServiceHost, hnone h hmem hironic, Option.getD_none]
  · rename_i hsome
    simp only [List.mem_map, List.mem_filterMap, List.mem_filter]
    constructor
    · rintro ⟨custom, ⟨h, ⟨hmem, hironic⟩, hcustom⟩, rfl⟩
      refine ⟨h, hmem, hironic, ?_, fun hnone => ?_⟩
      · rw [Host.ironicServiceHost, hcustom, Option.getD_some]
      · rw [hnone] at hcustom
        cases hcustom
    · rintro ⟨h, hmem, hironic, rfl, hall⟩
      obtain ⟨custom, hcustom⟩ := Option.ne_none_iff_exists'.mp fun hnone => hsome (hall hnone)
      refine ⟨custom, ⟨h, ⟨hmem, hironic⟩, hcustom⟩, ?_⟩
      rw [Host.ironicServiceHost, hcustom, Option.getD_some]

theorem own_of_expected {name : Text} (hname : name ∈ b.expectedServiceHosts) :
    ∃ h ∈ b.hosts, name ∈ h.own := by
  rcases List.mem_append.mp hname with hname | hname
  · obtain ⟨h, hmem, hvirt, rfl⟩ := mem_virtServiceHosts.mp hname
    exact ⟨h, hmem, mem_own.mpr (.inl ⟨hvirt, rfl⟩)⟩
  · obtain ⟨h, hmem, hironic, rfl, -⟩ := mem_ironicServiceHosts.mp hname
    exact ⟨h, hmem, mem_own.mpr (.inr ⟨hironic, rfl⟩)⟩

theorem expected_iff :
    (∀ name, name ∈ b.expectedServiceHosts ↔ ∃ h ∈ b.hosts, name ∈ h.own) ↔ Listed b := by
  constructor
  · intro hall
    by_cases hnone : ∀ h ∈ b.hosts, h.ironic = true → h.customHost = none
    · exact .inl hnone
    · refine .inr fun h hmem hironic hcustom => ?_
      have hlisted := (hall h.ironicServiceHost).mpr ⟨h, hmem, mem_own.mpr (.inr ⟨hironic, rfl⟩)⟩
      rcases List.mem_append.mp hlisted with hvirt | hothers
      · exact .inl hvirt
      · obtain ⟨h', hmem', hironic', hsame, hall'⟩ := mem_ironicServiceHosts.mp hothers
        exact .inr ⟨h', hmem', hironic', fun hcustom' => hnone (hall' hcustom'), hsame⟩
  · intro hlisted name
    refine ⟨own_of_expected, ?_⟩
    rintro ⟨h, hmem, hown⟩
    rw [Batch.expectedServiceHosts, List.mem_append]
    rcases mem_own.mp hown with ⟨hvirt, rfl⟩ | ⟨hironic, rfl⟩
    · exact .inl (mem_virtServiceHosts.mpr ⟨h, hmem, hvirt, rfl⟩)
    · rw [mem_ironicServiceHosts]
      by_cases hcustom : h.customHost = none
      · rcases hlisted with hnone | hother
        · exact .inr ⟨h, hmem, hironic, rfl, fun _ => hnone⟩
        · rcases hother h hmem hironic hcustom with hvirt | ⟨h', hmem', hironic', hcustom', hsame⟩
          · exact .inl hvirt
          · exact .inr ⟨h', hmem', hironic', hsame, fun hnone => absurd hnone hcustom'⟩
      · exact .inr ⟨h, hmem, hironic, rfl, fun hnone => absurd hnone hcustom⟩

/-! ## The failing hosts -/

theorem mem_failedServiceHosts {registered : List Text} {name : Text} :
    name ∈ b.failedServiceHosts registered ↔
      name ∈ b.expectedServiceHosts ∧ name ∉ registered := by
  rw [Batch.failedServiceHosts, List.mem_filter, Bool.not_eq_true', List.contains_eq_mem,
    decide_eq_false_iff_not]

theorem fails_iff {registered : List Text} {fatal : Bool} {h : Host} :
    b.fails registered fatal h = true ↔
      (∃ name ∈ h.lookedFor, name ∈ b.failedServiceHosts registered) ∨
        (fatal = true ∧ ∃ name, name ∈ b.failedServiceHosts registered) := by
  have hne : (b.failedServiceHosts registered).isEmpty = false ↔
      ∃ name, name ∈ b.failedServiceHosts registered := by
    rw [List.isEmpty_eq_false_iff_exists_mem]
  simp [Batch.fails, Host.lookedFor, hne]

/-- Where all services are listed, those that fail belong to the hosts. -/
theorem Discovers.mem_failed
    (hexpected : ∀ name, name ∈ b.expectedServiceHosts ↔ ∃ h ∈ b.hosts, name ∈ h.own)
    {registered : List Text} {name : Text} : name ∈ b.failedServiceHosts registered ↔
      ∃ h ∈ b.hosts, name ∈ h.own ∧ name ∉ registered := by
  rw [mem_failedServiceHosts, hexpected]
  constructor
  · rintro ⟨⟨h, hmem, hown⟩, hout⟩
    exact ⟨h, hmem, hown, hout⟩
  · rintro ⟨h, hmem, hown, hout⟩
    exact ⟨⟨h, hmem, hown⟩, hout⟩

theorem Discovers.knownByName (hdiscovers : Discovers b) : KnownByName b := by
  intro h hmem h' hmem' name hname
  -- every service of the batch but this one is registered
  let registered := b.expectedServiceHosts.filter (· ≠ name)
  have hexpected : name ∈ b.expectedServiceHosts :=
    (hdiscovers.expected name).mpr ⟨h', hmem', hname⟩
  have hmissing : ∀ x ∈ b.expectedServiceHosts, x ∉ registered ↔ x = name := by
    intro x hx
    simp [registered, hx]
  have hfails := hdiscovers.failing registered false h hmem
  rw [fails_iff] at hfails
  constructor
  · intro hlooked
    have hfailed : name ∈ b.failedServiceHosts registered :=
      mem_failedServiceHosts.mpr ⟨hexpected, (hmissing name hexpected).mpr rfl⟩
    rcases hfails.mp (.inl ⟨name, hlooked, hfailed⟩) with ⟨x, hx, hout⟩ | ⟨hfatal, -⟩
    · rw [← (hmissing x ((hdiscovers.expected x).mpr ⟨h, hmem, hx⟩)).mp hout]
      exact hx
    · cases hfatal
  · intro hown
    have hout := (hmissing name hexpected).mpr rfl
    rcases hfails.mpr (.inl ⟨name, hown, hout⟩) with ⟨x, hx, hfailed⟩ | ⟨hfatal, -⟩
    · obtain ⟨hx', hout'⟩ := mem_failedServiceHosts.mp hfailed
      rw [← (hmissing x hx').mp hout']
      exact hx
    · cases hfatal

theorem KnownByName.discovers (hknown : KnownByName b)
    (hexpected : ∀ name, name ∈ b.expectedServiceHosts ↔ ∃ h ∈ b.hosts, name ∈ h.own) :
    Discovers b := by
  refine ⟨hexpected, fun registered fatal h hmem => ?_⟩
  rw [fails_iff]
  refine or_congr ?_ (and_congr_right fun _ => ?_)
  · constructor
    · rintro ⟨name, hlooked, hfailed⟩
      obtain ⟨h', hmem', hown', hout⟩ := (Discovers.mem_failed hexpected).mp hfailed
      exact ⟨name, (hknown h hmem h' hmem' name hown').mp hlooked, hout⟩
    · rintro ⟨name, hown, hout⟩
      exact ⟨name, (hknown h hmem h hmem name hown).mpr hown,
        (Discovers.mem_failed hexpected).mpr ⟨h, hmem, hown, hout⟩⟩
  · constructor
    · rintro ⟨name, hfailed⟩
      obtain ⟨h', hmem', hout⟩ := (Discovers.mem_failed hexpected).mp hfailed
      exact ⟨h', hmem', name, hout⟩
    · rintro ⟨h', hmem', name, hout⟩
      exact ⟨name, (Discovers.mem_failed hexpected).mpr ⟨h', hmem', hout⟩⟩

/-- **The hosts of the batch are waited for, and fail, each for its own services** just when all
their services are listed, and a host is looked for by its own alone. -/
theorem discovers_iff (b : Batch) : Discovers b ↔ Listed b ∧ KnownByName b := by
  constructor
  · intro hdiscovers
    exact ⟨expected_iff.mp hdiscovers.expected, hdiscovers.knownByName⟩
  · rintro ⟨hlisted, hknown⟩
    exact hknown.discovers (expected_iff.mpr hlisted)

/-- Two ironic hosts, of which one has a custom host. -/
def mixed : Batch where
  hosts := [
    { nodename := "ctl0".toList, hostname := "ctl0".toList, ironic := true },
    { nodename := "ctl1".toList, hostname := "ctl1".toList, customHost := some "pin".toList,
      ironic := true }]

/-- The first is not waited for, and the second never fails. -/
theorem mixed_not_discovered :
    mixed.expectedServiceHosts = ["pin-ironic".toList] ∧
      mixed.fails [] false mixed.hosts[0] = false ∧ mixed.fails [] false mixed.hosts[1] = false ∧
      ¬ Discovers mixed := by
  have hexpected : mixed.expectedServiceHosts = ["pin-ironic".toList] := by decide
  refine ⟨hexpected, by decide, by decide, fun h => ?_⟩
  have hlisted := (h.expected "ctl0-ironic".toList).mpr
    ⟨mixed.hosts[0], List.mem_cons_self, by decide⟩
  rw [hexpected] at hlisted
  revert hlisted
  decide

end NovaCell
end KollaPowerOps
