import KollaPowerOps.Lib.Triple
import KollaPowerOps.OvsDpdk
import Mathlib.Logic.Function.Basic

/-!
# OvsDpdkDrivers

The drivers of the NICs, which `ovs-dpdkctl.sh` takes over with `bind_nics` and gives back with
`unbind_nics`.

* `bindNics`, `unbindNics` : the functions of the script, which may be stopped between any two calls.
* `Rig.Recoverable`        : a NIC has its own driver, or the configuration says which that is.
* `restored`               : so it is as long as no NIC is without a driver when `bind_nics` starts.
* `never_restored`         : otherwise the script has lost the driver.

Every name is one word. `driver_override` is left out: it is written before each binding.
-/

namespace KollaPowerOps
namespace OvsDpdk

open Shell Effect

/-! ## The script -/

/-- The calls of the script; `config` reads the file, and `driverOf` is `get_driver_by_address`. -/
inductive NicCall : Type → Type where
  | config : NicCall Config
  | driverOf (address : Word) : NicCall Word
  | setValue (sect key value : Word) : NicCall Unit
  | delValue (sect key : Word) : NicCall Unit
  | unbind (address driver : Word) : NicCall Unit
  | bind (address driver : Word) : NicCall Unit

abbrev NicOp : Type → Type 1 := Prog NicCall Empty

def oldDriver : Word := "old_driver".toList

def addressOf (config : Config) (nic : Word) : Word := getValue config nic "address".toList

def targetOf (config : Config) (nic : Word) : Word := getValue config nic "driver".toList

/-- The body of the loop of `bind_nics`. -/
def bindDriver (nic : Word) : NicOp Unit := do
  let address := addressOf (← Prog.request .config) nic
  let current ← Prog.request (.driverOf address)
  let target := targetOf (← Prog.request .config) nic
  if current ≠ target then
    Prog.request (.setValue nic oldDriver current)
    Prog.request (.unbind address current)
    Prog.request (.bind address target)

/-- The body of the loop of `unbind_nics`. -/
def unbindDriver (nic : Word) : NicOp Unit := do
  if getValue (← Prog.request .config) nic oldDriver ≠ [] then
    let address := addressOf (← Prog.request .config) nic
    let current ← Prog.request (.driverOf address)
    let target := getValue (← Prog.request .config) nic oldDriver
    if current ≠ target then
      Prog.request (.unbind address current)
      Prog.request (.bind address target)
      Prog.request (.delValue nic oldDriver)

/-- `for nic in ...` -/
def eachNic (body : Word → NicOp Unit) : List Word → NicOp Unit
  | [] => pure ()
  | nic :: nics => do
    body nic
    eachNic body nics

def bindNics : NicOp Unit := do
  eachNic bindDriver (words (listDpdkNics (← Prog.request .config)))

def unbindNics : NicOp Unit := do
  eachNic unbindDriver (words (listDpdkNics (← Prog.request .config)))

/-! ## The devices -/

/-- The configuration file, and the driver of the device at an address, if there is one. -/
structure Nics where
  config : Config
  driver : Word → Word

namespace Nics

def set (w : Nics) (sect key : Word) (value : Option Word) : Nics :=
  { w with config := Function.update w.config sect (Function.update (w.config sect) key value) }

def drive (w : Nics) (address driver : Word) : Nics :=
  { w with driver := Function.update w.driver address driver }

variable {w : Nics} {sect key address driver : Word} {value : Option Word}

@[simp] theorem driver_set : (w.set sect key value).driver = w.driver := rfl

@[simp] theorem config_drive : (w.drive address driver).config = w.config := rfl

@[simp] theorem config_set : (w.set sect key value).config sect key = value := by simp [set]

theorem config_set_key {sect' key' : Word} (h : key' ≠ key) :
    (w.set sect key value).config sect' key' = w.config sect' key' := by
  by_cases hsect : sect' = sect
  · subst hsect
    simp [set, h]
  · simp [set, hsect]

theorem config_set_sect {sect' key' : Word} (h : sect' ≠ sect) :
    (w.set sect key value).config sect' key' = w.config sect' key' := by simp [set, h]

@[simp] theorem driver_drive : (w.drive address driver).driver address = driver := by simp [drive]

theorem driver_drive_of_ne {address' : Word} (h : address' ≠ address) :
    (w.drive address driver).driver address' = w.driver address' := by simp [drive, h]

end Nics

/-- A device is taken from the driver that it has. It can be bound if it has none, and its own driver
does take it. -/
def onSysfs (native : Word → Word) : Env NicCall Empty Nics := fun w ev w' =>
  match ev with
  | ⟨.config, .ok config⟩ => config = w.config ∧ w' = w
  | ⟨.driverOf address, .ok driver⟩ => driver = w.driver address ∧ w' = w
  | ⟨.setValue sect key value, _⟩ => w' = w.set sect key (some value)
  | ⟨.delValue sect key, _⟩ => w' = w.set sect key none
  | ⟨.unbind address driver, _⟩ => w' = if w.driver address = driver then w.drive address [] else w
  | ⟨.bind address driver, _⟩ => w.driver address = [] ∧ w' = w.drive address driver ∨
      w' = w ∧ (w.driver address = [] → driver ≠ native address)
  | _ => False

/-! ## What is kept -/

/-- A configuration as it is generated, and the driver that a device has of its own. -/
structure Rig where
  config : Config
  native : Word → Word
  distinct : ((words (listDpdkNics config)).map (addressOf config)).Nodup
  named : ∀ nic ∈ words (listDpdkNics config), native (addressOf config nic) ≠ []

namespace Rig

variable (r : Rig)

def nics : List Word := words (listDpdkNics r.config)

def address (nic : Word) : Word := addressOf r.config nic

def target (nic : Word) : Word := targetOf r.config nic

/-- The driver that the NIC has of its own. -/
def own (nic : Word) : Word := r.native (r.address nic)

/-- But for the old drivers the configuration is as generated. -/
def Generated (w : Nics) : Prop :=
  ∀ sect key, key ≠ oldDriver → w.config sect key = r.config sect key

/-- Every NIC has its own driver, or the configuration says which that is. -/
structure Recoverable (w : Nics) : Prop where
  generated : r.Generated w
  known : ∀ nic ∈ r.nics, w.driver (r.address nic) = [] ∨ w.driver (r.address nic) = r.own nic ∨
    w.driver (r.address nic) = r.target nic
  recorded : ∀ nic ∈ r.nics, w.driver (r.address nic) = r.own nic ∨
    w.config nic oldDriver = some (r.own nic)
  old : ∀ nic ∈ r.nics, ∀ driver, w.config nic oldDriver = some driver → driver = r.own nic

/-- No NIC is without a driver. -/
def Driven (w : Nics) : Prop := ∀ nic ∈ r.nics, w.driver (r.address nic) ≠ []

/-- Every NIC has its own driver. -/
def Restored (w : Nics) : Prop := ∀ nic ∈ r.nics, w.driver (r.address nic) = r.own nic

/-- Before the first command. -/
structure Fresh (w : Nics) : Prop where
  config : w.config = r.config
  unrecorded : ∀ nic ∈ r.nics, w.config nic oldDriver = none
  restored : r.Restored w

/-- The calls that lose no driver. -/
def Allowed (w : Nics) {τ : Type} : NicCall τ → Prop
  | .setValue sect key value => sect ∈ r.nics ∧ key = oldDriver ∧ value = r.own sect
  | .delValue sect key => sect ∈ r.nics ∧ key = oldDriver ∧
      w.driver (r.address sect) = r.own sect
  | .unbind address _ => ∃ nic ∈ r.nics, r.address nic = address ∧
      w.config nic oldDriver = some (r.own nic)
  | .bind address driver => ∃ nic ∈ r.nics, r.address nic = address ∧
      w.config nic oldDriver = some (r.own nic) ∧ (driver = r.own nic ∨ driver = r.target nic)
  | _ => True

section Rules

variable {r} {w w' : Nics} {nic : Word}

theorem Fresh.recoverable (h : r.Fresh w) : r.Recoverable w where
  generated sect key _ := by rw [h.config]
  known nic hnic := .inr (.inl (h.restored nic hnic))
  recorded nic hnic := .inl (h.restored nic hnic)
  old nic hnic driver hdriver := by
    rw [h.unrecorded nic hnic] at hdriver
    cases hdriver

theorem Generated.address (h : r.Generated w) (nic : Word) :
    addressOf w.config nic = r.address nic := by
  rw [addressOf, getValue, h nic _ (by decide)]
  rfl

theorem Generated.target (h : r.Generated w) (nic : Word) :
    targetOf w.config nic = r.target nic := by
  rw [targetOf, getValue, h nic _ (by decide)]
  rfl

theorem Generated.nics (h : r.Generated w) : words (listDpdkNics w.config) = r.nics := by
  rw [listDpdkNics, getValue, h "ovs".toList _ (by decide)]
  rfl

theorem Generated.set (h : r.Generated w) (sect : Word) (value : Option Word) :
    r.Generated (w.set sect oldDriver value) := by
  intro sect' key hkey
  rw [Nics.config_set_key hkey]
  exact h sect' key hkey

theorem eq_of_address {nic' : Word} (hnic : nic ∈ r.nics) (hnic' : nic' ∈ r.nics)
    (h : r.address nic = r.address nic') : nic = nic' :=
  List.inj_on_of_nodup_map r.distinct hnic hnic' h

/-! ### One call -/

/-- What is recorded of a NIC is its own driver, and may be dropped while it has that. -/
theorem Recoverable.set {value : Option Word} (h : r.Recoverable w)
    (hrecorded : w.driver (r.address nic) = r.own nic ∨ value = some (r.own nic))
    (hold : ∀ driver, value = some driver → driver = r.own nic) :
    r.Recoverable (w.set nic oldDriver value) := by
  refine ⟨h.generated.set _ _, h.known, fun nic' hnic' => ?_, fun nic' hnic' driver hdriver => ?_⟩
  · by_cases hsame : nic' = nic
    · subst hsame
      rw [Nics.config_set]
      exact hrecorded
    · rw [Nics.config_set_sect hsame]
      exact h.recorded nic' hnic'
  · by_cases hsame : nic' = nic
    · subst hsame
      exact hold driver (Nics.config_set.symm.trans hdriver)
    · rw [Nics.config_set_sect hsame] at hdriver
      exact h.old nic' hnic' driver hdriver

/-- A NIC whose old driver is recorded may get any driver that it is known to have, or none. -/
theorem Recoverable.drive (h : r.Recoverable w) (hnic : nic ∈ r.nics) {driver : Word}
    (hrecorded : w.config nic oldDriver = some (r.own nic))
    (hknown : driver = [] ∨ driver = r.own nic ∨ driver = r.target nic) :
    r.Recoverable (w.drive (r.address nic) driver) := by
  refine ⟨h.generated, fun nic' hnic' => ?_, fun nic' hnic' => ?_, h.old⟩
  · by_cases hsame : nic' = nic
    · subst hsame
      rw [Nics.driver_drive]
      exact hknown
    · rw [Nics.driver_drive_of_ne fun heq => hsame (eq_of_address hnic' hnic heq)]
      exact h.known nic' hnic'
  · by_cases hsame : nic' = nic
    · subst hsame
      exact .inr hrecorded
    · rw [Nics.driver_drive_of_ne fun heq => hsame (eq_of_address hnic' hnic heq)]
      exact h.recorded nic' hnic'

theorem Recoverable.step {ev : Event NicCall Empty} (h : r.Recoverable w) (hallowed : r.Allowed w ev.op)
    (hev : onSysfs r.native w ev w') : r.Recoverable w' := by
  obtain ⟨op, answer | answer⟩ := ev
  · cases answer
  · cases op with
    | config =>
      obtain ⟨-, rfl⟩ := hev
      exact h
    | driverOf address =>
      obtain ⟨-, rfl⟩ := hev
      exact h
    | setValue sect key value =>
      obtain ⟨-, rfl, rfl⟩ := hallowed
      cases hev
      exact h.set (.inr rfl) fun driver hdriver => (Option.some.inj hdriver).symm
    | delValue sect key =>
      obtain ⟨-, rfl, hown⟩ := hallowed
      cases hev
      exact h.set (.inl hown) fun driver hdriver => by cases hdriver
    | unbind address driver =>
      obtain ⟨nic, hnic, rfl, hrecorded⟩ := hallowed
      have hw' : w' = if w.driver (r.address nic) = driver then w.drive (r.address nic) [] else w := hev
      rw [hw']
      split
      · exact h.drive hnic hrecorded (.inl rfl)
      · exact h
    | bind address driver =>
      obtain ⟨nic, hnic, rfl, hrecorded, hdriver⟩ := hallowed
      rcases hev with ⟨-, rfl⟩ | ⟨rfl, -⟩
      · exact h.drive hnic hrecorded (.inr hdriver)
      · exact h

/-! ### One NIC -/

/-- Only the device of this NIC may have another driver. -/
def Beside (nic : Word) (w w' : Nics) : Prop :=
  ∀ address, address ≠ r.address nic → w'.driver address = w.driver address

/-- The NIC is given to its target. -/
def take (nic current : Word) : NicOp Unit := do
  Prog.request (.setValue nic oldDriver current)
  Prog.request (.unbind (r.address nic) current)
  Prog.request (.bind (r.address nic) (r.target nic))

/-- The script reads, and gives the NIC to its target if another driver has it. -/
theorem bindDriver_reads {P : Nics → ∀ {τ : Type}, NicCall τ → Prop} {Q : Unit → Nics → Prop}
    (hconfig : P w .config) (hdriver : P w (.driverOf (r.address nic))) (h : r.Generated w)
    (hsame : w.driver (r.address nic) = r.target nic → Q () w)
    (hdiffers : w.driver (r.address nic) ≠ r.target nic →
      (r.take nic (w.driver (r.address nic))).wp (onSysfs r.native) P Q w) :
    (bindDriver nic).wp (onSysfs r.native) P Q w := by
  have haddress := h.address nic
  refine ⟨hconfig, fun config w₁ hread₁ => ?_⟩
  obtain ⟨rfl, rfl⟩ := hread₁
  simp only [Prog.bind_ok, haddress]
  refine ⟨hdriver, fun current w₂ hread₂ => ?_⟩
  obtain ⟨rfl, rfl⟩ := hread₂
  refine ⟨hconfig, fun config w₃ hread₃ => ?_⟩
  obtain ⟨rfl, rfl⟩ := hread₃
  simp only [Prog.bind_ok, h.target]
  split
  · rename_i hne
    exact hdiffers hne
  · rename_i heq
    exact hsame (not_not.mp heq)

theorem bindDriver_wp (h : r.Recoverable w) (hnic : nic ∈ r.nics)
    (hdriven : w.driver (r.address nic) ≠ []) :
    (bindDriver nic).wp (onSysfs r.native) r.Allowed
      (fun _ w' => r.Recoverable w' ∧ r.Beside nic w w') w := by
  refine bindDriver_reads trivial trivial h.generated (fun _ => ⟨h, fun _ _ => rfl⟩) fun hdiffers => ?_
  have hown : w.driver (r.address nic) = r.own nic := by
    rcases h.known nic hnic with hnone | hown | htarget
    · exact absurd hnone hdriven
    · exact hown
    · exact absurd htarget hdiffers
  have hset : r.Allowed w (.setValue nic oldDriver (w.driver (r.address nic))) := ⟨hnic, rfl, hown⟩
  refine ⟨hset, fun _ w₁ hev₁ => ?_⟩
  have h₁ := h.step hset hev₁
  have hw₁ : w₁ = w.set nic oldDriver (some (w.driver (r.address nic))) := hev₁
  have hrecorded : w₁.config nic oldDriver = some (r.own nic) := by
    rw [hw₁, Nics.config_set, hown]
  have hunbind : r.Allowed w₁ (.unbind (r.address nic) (w.driver (r.address nic))) :=
    ⟨nic, hnic, rfl, hrecorded⟩
  refine ⟨hunbind, fun _ w₂ hev₂ => ?_⟩
  have h₂ := h₁.step hunbind hev₂
  have hw₂ : w₂ = w₁.drive (r.address nic) [] := by
    refine Eq.trans hev₂ (if_pos ?_)
    rw [hw₁, Nics.driver_set]
  have hbind : r.Allowed w₂ (.bind (r.address nic) (r.target nic)) := by
    refine ⟨nic, hnic, rfl, ?_, .inr rfl⟩
    rw [hw₂, Nics.config_drive, hrecorded]
  refine ⟨hbind, fun _ w₃ hev₃ => ⟨h₂.step hbind hev₃, fun address haddress => ?_⟩⟩
  have hbefore : w₂.driver address = w.driver address := by
    rw [hw₂, Nics.driver_drive_of_ne haddress, hw₁, Nics.driver_set]
  rcases hev₃ with ⟨-, rfl⟩ | ⟨rfl, -⟩
  · rw [Nics.driver_drive_of_ne haddress, hbefore]
  · exact hbefore

theorem unbindDriver_wp (h : r.Recoverable w) (hnic : nic ∈ r.nics) :
    (unbindDriver nic).wp (onSysfs r.native) r.Allowed
      (fun _ w' => r.Recoverable w' ∧ r.Beside nic w w' ∧ w'.driver (r.address nic) = r.own nic) w := by
  have hnamed : r.own nic ≠ [] := r.named nic hnic
  refine ⟨trivial, fun config w₁ hconfig => ?_⟩
  obtain ⟨rfl, rfl⟩ := hconfig
  simp only [Prog.bind_ok]
  split
  · rename_i hset
    have hrecorded : w₁.config nic oldDriver = some (r.own nic) := by
      cases hold : w₁.config nic oldDriver with
      | none =>
        rw [getValue, hold] at hset
        exact absurd rfl hset
      | some driver => rw [h.old nic hnic driver hold]
    have htarget : getValue w₁.config nic oldDriver = r.own nic := by
      rw [getValue, hrecorded]
      rfl
    refine ⟨trivial, fun config w₂ hconfig => ⟨trivial, fun current w₃ hcurrent => ⟨trivial, ?_⟩⟩⟩
    intro config' w₄ hconfig'
    obtain ⟨rfl, rfl⟩ := hconfig
    obtain ⟨rfl, rfl⟩ := hcurrent
    obtain ⟨rfl, rfl⟩ := hconfig'
    simp only [Prog.bind_ok, h.generated.address, htarget]
    split
    · have hunbind : r.Allowed w₄ (.unbind (r.address nic) (w₄.driver (r.address nic))) :=
        ⟨nic, hnic, rfl, hrecorded⟩
      refine ⟨hunbind, fun _ w₅ hev₅ => ?_⟩
      have h₅ := h.step hunbind hev₅
      have hw₅ : w₅ = w₄.drive (r.address nic) [] := Eq.trans hev₅ (if_pos rfl)
      have hbind : r.Allowed w₅ (.bind (r.address nic) (r.own nic)) := by
        refine ⟨nic, hnic, rfl, ?_, .inl rfl⟩
        rw [hw₅, Nics.config_drive, hrecorded]
      refine ⟨hbind, fun _ w₆ hev₆ => ?_⟩
      have h₆ := h₅.step hbind hev₆
      have hw₆ : w₆ = w₅.drive (r.address nic) (r.own nic) := by
        rcases hev₆ with ⟨-, hw₆⟩ | ⟨-, hfails⟩
        · exact hw₆
        · refine absurd rfl (hfails ?_)
          rw [hw₅, Nics.driver_drive]
      have hdel : r.Allowed w₆ (.delValue nic oldDriver) := by
        refine ⟨hnic, rfl, ?_⟩
        rw [hw₆, Nics.driver_drive]
      refine ⟨hdel, fun _ w₇ hev₇ => ⟨h₆.step hdel hev₇, fun address haddress => ?_, ?_⟩⟩
      · have hw₇ : w₇ = w₆.set nic oldDriver none := hev₇
        rw [hw₇, Nics.driver_set, hw₆, Nics.driver_drive_of_ne haddress, hw₅,
          Nics.driver_drive_of_ne haddress]
      · have hw₇ : w₇ = w₆.set nic oldDriver none := hev₇
        rw [hw₇, Nics.driver_set, hw₆, Nics.driver_drive]
    · rename_i hsame
      exact ⟨h, fun _ _ => rfl, not_not.mp hsame⟩
  · rename_i hunset
    refine ⟨h, fun _ _ => rfl, (h.recorded nic hnic).resolve_right fun hrecorded => hunset ?_⟩
    rw [getValue, hrecorded]
    exact hnamed

/-! ### The loops -/

theorem bindEach_wp {nics : List Word} (hnics : ∀ nic ∈ nics, nic ∈ r.nics)
    (hdistinct : (nics.map r.address).Nodup) (h : r.Recoverable w)
    (hdriven : ∀ nic ∈ nics, w.driver (r.address nic) ≠ []) :
    (eachNic bindDriver nics).wp (onSysfs r.native) r.Allowed (fun _ w' => r.Recoverable w') w := by
  induction nics generalizing w with
  | nil => exact h
  | cons nic nics ih =>
    obtain ⟨hnic, hnics⟩ := List.forall_mem_cons.mp hnics
    obtain ⟨hhere, hdriven⟩ := List.forall_mem_cons.mp hdriven
    rw [List.map_cons, List.nodup_cons] at hdistinct
    refine wp_bind (wp_mono (bindDriver_wp h hnic hhere) ?_)
    rintro _ w' ⟨h', hbeside⟩
    refine ih hnics hdistinct.2 h' fun nic' hnic' => ?_
    have hne : r.address nic' ≠ r.address nic :=
      fun heq => hdistinct.1 (heq ▸ List.mem_map_of_mem hnic')
    rw [hbeside _ hne]
    exact hdriven nic' hnic'

theorem unbindEach_wp {nics : List Word} (hnics : ∀ nic ∈ nics, nic ∈ r.nics)
    (hdistinct : (nics.map r.address).Nodup) (h : r.Recoverable w) :
    (eachNic unbindDriver nics).wp (onSysfs r.native) r.Allowed
      (fun _ w' => r.Recoverable w' ∧ (∀ nic ∈ nics, w'.driver (r.address nic) = r.own nic) ∧
        ∀ address, (∀ nic ∈ nics, address ≠ r.address nic) → w'.driver address = w.driver address)
      w := by
  induction nics generalizing w with
  | nil => exact ⟨h, fun nic hnic => (List.not_mem_nil hnic).elim, fun _ _ => rfl⟩
  | cons nic nics ih =>
    obtain ⟨hnic, hnics⟩ := List.forall_mem_cons.mp hnics
    rw [List.map_cons, List.nodup_cons] at hdistinct
    have hne : ∀ nic' ∈ nics, r.address nic ≠ r.address nic' := by
      intro nic' hnic' heq
      rw [heq] at hdistinct
      exact hdistinct.1 (List.mem_map_of_mem hnic')
    refine wp_bind (wp_mono (unbindDriver_wp h hnic) ?_)
    rintro _ w₁ ⟨h₁, hbeside, hown⟩
    refine wp_mono (ih hnics hdistinct.2 h₁) ?_
    rintro _ w₂ ⟨h₂, hrest, hothers⟩
    refine ⟨h₂, List.forall_mem_cons.mpr ⟨?_, hrest⟩, fun address haddress => ?_⟩
    · rw [hothers _ hne, hown]
    · obtain ⟨hhere, hnot⟩ := List.forall_mem_cons.mp haddress
      rw [hothers address hnot, hbeside address hhere]

/-- A loop over all NICs, from a configuration as generated. -/
theorem loop_wp {P : Nics → ∀ {τ : Type}, NicCall τ → Prop} {Q : Unit → Nics → Prop}
    {body : Word → NicOp Unit} (hconfig : P w .config) (h : r.Generated w)
    (hloop : (eachNic body r.nics).wp (onSysfs r.native) P Q w) :
    Prog.wp (onSysfs r.native) P Q
      (do eachNic body (words (listDpdkNics (← Prog.request .config)))) w := by
  refine ⟨hconfig, fun config w₁ hread => ?_⟩
  obtain ⟨rfl, rfl⟩ := hread
  simp only [Prog.bind_ok, h.nics]
  exact hloop

theorem bindNics_wp (h : r.Recoverable w) (hdriven : r.Driven w) :
    bindNics.wp (onSysfs r.native) r.Allowed (fun _ w' => r.Recoverable w') w :=
  loop_wp trivial h.generated (bindEach_wp (fun _ hnic => hnic) r.distinct h hdriven)

theorem unbindNics_wp (h : r.Recoverable w) :
    unbindNics.wp (onSysfs r.native) r.Allowed (fun _ w' => r.Recoverable w' ∧ r.Restored w') w := by
  refine loop_wp trivial h.generated ?_
  refine wp_mono (unbindEach_wp (fun _ hnic => hnic) r.distinct h) ?_
  rintro _ w' ⟨h', hown, -⟩
  exact ⟨h', hown⟩

end Rules

/-! ## Commands one after another -/

/-- The node boots: every NIC gets its own driver, the configuration stays. -/
structure Boots (w w' : Nics) : Prop where
  config : w'.config = w.config
  restored : r.Restored w'

/-- Boots and commands, each of which may be stopped anywhere. A `bind_nics` is started while every
NIC has a driver. -/
inductive Operated : Nics → Nics → Prop where
  | refl {w : Nics} : Operated w w
  | boot {w w₁ w₂ : Nics} : Operated w w₁ → r.Boots w₁ w₂ → Operated w w₂
  | bindNics {w w₁ w₂ : Nics} {tr : List (Event NicCall Empty)} {p : NicOp Unit} :
      Operated w w₁ → r.Driven w₁ → Steps bindNics tr p → Drives (onSysfs r.native) w₁ tr w₂ →
        Operated w w₂
  | unbindNics {w w₁ w₂ : Nics} {tr : List (Event NicCall Empty)} {p : NicOp Unit} :
      Operated w w₁ → Steps unbindNics tr p → Drives (onSysfs r.native) w₁ tr w₂ → Operated w w₂

section Commands

variable {r} {w w' w'' : Nics} {nic : Word}

theorem Recoverable.boots (h : r.Recoverable w) (hboots : r.Boots w w') : r.Recoverable w' := by
  refine ⟨fun sect key hkey => ?_, fun nic hnic => ?_, fun nic hnic => ?_, fun nic hnic => ?_⟩
  · rw [hboots.config]
    exact h.generated sect key hkey
  · exact .inr (.inl (hboots.restored nic hnic))
  · exact .inl (hboots.restored nic hnic)
  · rw [hboots.config]
    exact h.old nic hnic

/-- Wherever a command is stopped whose calls are allowed, no driver is lost. -/
theorem Recoverable.stopped {p q : NicOp Unit} {Q : Unit → Nics → Prop}
    {tr : List (Event NicCall Empty)} (h : r.Recoverable w)
    (hwp : p.wp (onSysfs r.native) r.Allowed Q w) (hsteps : Steps p tr q)
    (hdrives : Drives (onSysfs r.native) w tr w') : r.Recoverable w' :=
  wp_invariant (fun _ _ _ hw hallowed hev => hw.step hallowed hev) hsteps hdrives hwp h

theorem Operated.recoverable (h : r.Operated w w') (hw : r.Recoverable w) : r.Recoverable w' := by
  induction h with
  | refl => exact hw
  | boot _ hboots ih => exact ih.boots hboots
  | bindNics _ hdriven hsteps hdrives ih =>
    exact ih.stopped (bindNics_wp ih hdriven) hsteps hdrives
  | unbindNics _ hsteps hdrives ih => exact ih.stopped (unbindNics_wp ih) hsteps hdrives

end Commands

/-- **No driver is lost**: from the generated configuration, after boots and commands, each of them
stopped anywhere, every NIC has its own driver or the configuration says which that is; and an
`unbind_nics` that runs to its end gives every NIC its own driver back. -/
theorem restored (w w' : Nics) (hfresh : r.Fresh w) (h : r.Operated w w') :
    r.Recoverable w' ∧ ∀ tr w'', Runs (onSysfs r.native) w' unbindNics tr (.ok ()) w'' →
      r.Restored w'' := by
  have hrecoverable := h.recoverable hfresh.recoverable
  refine ⟨hrecoverable, fun tr w'' hruns => ?_⟩
  have hdone : r.Recoverable w'' ∧ r.Restored w'' :=
    wp_steps hruns.1 hruns.2 (unbindNics_wp hrecoverable)
  exact hdone.2

/-! ## A rig with one NIC -/

section OneNic

variable {config : Config} {nic current : Word}

/-- The calls of `bind_nics` up to the unbinding. -/
def takesOff (config : Config) (nic current : Word) : List (Event NicCall Empty) :=
  [⟨.config, .ok config⟩, ⟨.config, .ok config⟩, ⟨.driverOf (addressOf config nic), .ok current⟩,
   ⟨.config, .ok config⟩, ⟨.setValue nic oldDriver current, .ok ()⟩,
   ⟨.unbind (addressOf config nic) current, .ok ()⟩]

theorem takesOff_steps (hnics : words (listDpdkNics config) = [nic])
    (h : current ≠ targetOf config nic) :
    Steps bindNics (takesOff config nic current)
      (.call (.bind (addressOf config nic) (targetOf config nic)) fun _ => .done (.ok ())) := by
  refine .ret ?_
  simp only [Prog.bind_ok, hnics]
  refine .ret (.ret (.ret ?_))
  simp only [Prog.bind_ok]
  rw [if_pos h]
  exact .ret (.ret .nil)

end OneNic

def eth0 : Word := "eth0".toList

def slot : Word := "0000:01:00.0".toList

def ixgbe : Word := "ixgbe".toList

def vfioConfig : Config := fun sect key =>
  if key = "port_mappings".toList then some "eth0:br0".toList
  else if sect = eth0 ∧ key = "address".toList then some slot
  else if sect = eth0 ∧ key = "driver".toList then some "vfio-pci".toList
  else none

theorem vfioConfig_nics : words (listDpdkNics vfioConfig) = [eth0] := by decide

theorem vfioConfig_distinct :
    ((words (listDpdkNics vfioConfig)).map (addressOf vfioConfig)).Nodup := by
  rw [vfioConfig_nics]
  exact List.nodup_singleton _

/-- One NIC on one bridge. -/
def vfio : Rig where
  config := vfioConfig
  native _ := ixgbe
  distinct := vfioConfig_distinct
  named _ _ := List.cons_ne_nil _ _

theorem mem_vfio {nic : Word} : nic ∈ vfio.nics ↔ nic = eth0 := by
  have hnics : vfio.nics = [eth0] := vfioConfig_nics
  rw [hnics, List.mem_singleton]

/-- The NIC with its own driver, and nothing recorded. -/
def booted : Nics := ⟨vfioConfig, fun _ => ixgbe⟩

theorem booted_fresh : vfio.Fresh booted where
  config := rfl
  unrecorded nic hnic := by
    obtain rfl := mem_vfio.mp hnic
    decide
  restored _ _ := rfl

/-- `bind_nics` has been stopped between the unbinding and the binding. -/
def unbound : Nics := (booted.set eth0 oldDriver (some ixgbe)).drive slot []

theorem unbound_drives :
    Drives (onSysfs vfio.native) booted (takesOff vfioConfig eth0 ixgbe) unbound := by
  have haddress : addressOf vfioConfig eth0 = slot := by decide
  rw [takesOff, haddress]
  refine .cons ⟨rfl, rfl⟩ (.cons ⟨rfl, rfl⟩ (.cons ⟨rfl, rfl⟩ (.cons ⟨rfl, rfl⟩ (.cons rfl ?_))))
  exact .cons (if_pos rfl).symm .nil

theorem vfio_restored : vfio.Recoverable unbound ∧ ∀ tr w,
    Runs (onSysfs vfio.native) unbound unbindNics tr (.ok ()) w → vfio.Restored w := by
  have hdriven : vfio.Driven booted := fun _ _ => List.cons_ne_nil _ _
  have htaken : ixgbe ≠ targetOf vfioConfig eth0 := by decide
  exact restored vfio booted unbound booted_fresh
    (.bindNics .refl hdriven (takesOff_steps vfioConfig_nics htaken) unbound_drives)

/-! ## A NIC without a driver -/

/-- The NIC has not its own driver, and the configuration does not say which that is. -/
structure Lost (nic : Word) (w : Nics) : Prop where
  generated : r.Generated w
  driver : w.driver (r.address nic) = [] ∨ w.driver (r.address nic) = r.target nic
  old : ∀ driver, w.config nic oldDriver = some driver → driver = []

/-- The NIC has no driver, whatever is recorded. -/
structure Idle (nic : Word) (w : Nics) : Prop where
  generated : r.Generated w
  driver : w.driver (r.address nic) = []

/-- The calls that find no driver again. -/
def Blind (nic : Word) (_ : Nics) {τ : Type} : NicCall τ → Prop
  | .setValue sect key value => key = oldDriver ∧ (sect = nic → value = [])
  | .delValue _ key => key = oldDriver
  | .bind address driver => address = r.address nic → driver = r.target nic
  | _ => True

section Lost

variable {r} {w w' w'' : Nics} {nic nic' : Word}

theorem Lost.set {sect : Word} {value : Option Word} (h : r.Lost nic w)
    (hvalue : sect = nic → ∀ driver, value = some driver → driver = []) :
    r.Lost nic (w.set sect oldDriver value) := by
  refine ⟨h.generated.set _ _, h.driver, fun driver hdriver => ?_⟩
  by_cases hsect : nic = sect
  · subst hsect
    exact hvalue rfl driver (Nics.config_set.symm.trans hdriver)
  · rw [Nics.config_set_sect hsect] at hdriver
    exact h.old driver hdriver

theorem Lost.drive {address driver : Word} (h : r.Lost nic w)
    (hdriver : address = r.address nic → driver = [] ∨ driver = r.target nic) :
    r.Lost nic (w.drive address driver) := by
  refine ⟨h.generated, ?_, h.old⟩
  by_cases hsame : r.address nic = address
  · subst hsame
    rw [Nics.driver_drive]
    exact hdriver rfl
  · rw [Nics.driver_drive_of_ne hsame]
    exact h.driver

theorem Lost.step {ev : Event NicCall Empty} (h : r.Lost nic w) (hblind : r.Blind nic w ev.op)
    (hev : onSysfs r.native w ev w') : r.Lost nic w' := by
  obtain ⟨op, answer | answer⟩ := ev
  · cases answer
  · cases op with
    | config =>
      obtain ⟨-, rfl⟩ := hev
      exact h
    | driverOf address =>
      obtain ⟨-, rfl⟩ := hev
      exact h
    | setValue sect key value =>
      obtain ⟨rfl, hvalue⟩ := hblind
      cases hev
      refine h.set fun hsect driver hdriver => ?_
      rw [← Option.some.inj hdriver]
      exact hvalue hsect
    | delValue sect key =>
      obtain rfl : key = oldDriver := hblind
      cases hev
      exact h.set fun _ driver hdriver => by cases hdriver
    | unbind address driver =>
      have hw' : w' = if w.driver address = driver then w.drive address [] else w := hev
      rw [hw']
      split
      · exact h.drive fun _ => .inl rfl
      · exact h
    | bind address driver =>
      rcases hev with ⟨-, rfl⟩ | ⟨rfl, -⟩
      · exact h.drive fun heq => .inr (hblind heq)
      · exact h

/-- What `bind_nics` does to a NIC that has lost its driver, or to another one. -/
theorem take_blind {current : Word} {Q : Unit → Nics → Prop} (hnic : nic ∈ r.nics)
    (hnic' : nic' ∈ r.nics) (hcurrent : nic' = nic → current = [])
    (hQ : ∀ w₁ w₂ w₃, w₁ = w.set nic' oldDriver (some current) →
      onSysfs r.native w₁ ⟨.unbind (r.address nic') current, .ok ()⟩ w₂ →
      onSysfs r.native w₂ ⟨.bind (r.address nic') (r.target nic'), .ok ()⟩ w₃ → Q () w₃) :
    (r.take nic' current).wp (onSysfs r.native) (r.Blind nic) Q w := by
  refine ⟨⟨rfl, hcurrent⟩, fun _ w₁ hev₁ => ⟨trivial, fun _ w₂ hev₂ => ⟨fun heq => ?_, ?_⟩⟩⟩
  · rw [eq_of_address hnic' hnic heq]
  · exact fun _ w₃ hev₃ => hQ w₁ w₂ w₃ hev₁ hev₂ hev₃

theorem bindDriver_lost (h : r.Lost nic w) (hnic : nic ∈ r.nics) (hnic' : nic' ∈ r.nics) :
    (bindDriver nic').wp (onSysfs r.native) (r.Blind nic) (fun _ w' => r.Lost nic w') w := by
  refine bindDriver_reads trivial trivial h.generated (fun _ => h) fun hdiffers => ?_
  have hcurrent : nic' = nic → w.driver (r.address nic') = [] := by
    rintro rfl
    exact h.driver.resolve_right hdiffers
  refine take_blind hnic hnic' hcurrent fun w₁ w₂ w₃ hw₁ hev₂ hev₃ => ?_
  have hset : r.Blind nic w (.setValue nic' oldDriver (w.driver (r.address nic'))) := ⟨rfl, hcurrent⟩
  have hev₁ : onSysfs r.native w
      ⟨.setValue nic' oldDriver (w.driver (r.address nic')), .ok ()⟩ w₁ := hw₁
  have hunbind : r.Blind nic w₁ (.unbind (r.address nic') (w.driver (r.address nic'))) := trivial
  have hbind : r.Blind nic w₂ (.bind (r.address nic') (r.target nic')) := by
    intro heq
    rw [eq_of_address hnic' hnic heq]
  exact ((h.step hset hev₁).step hunbind hev₂).step hbind hev₃

theorem unbindDriver_lost (h : r.Lost nic w) (hnic : nic ∈ r.nics) (hnic' : nic' ∈ r.nics) :
    (unbindDriver nic').wp (onSysfs r.native) (r.Blind nic) (fun _ w' => r.Lost nic w') w := by
  refine ⟨trivial, fun config w₁ hconfig => ?_⟩
  obtain ⟨rfl, rfl⟩ := hconfig
  simp only [Prog.bind_ok]
  split
  · rename_i hset
    have hne : nic' ≠ nic := by
      rintro rfl
      refine hset ?_
      rw [getValue]
      cases hold : w₁.config nic' oldDriver with
      | none => rfl
      | some driver => exact h.old driver hold
    have haddress : r.address nic' ≠ r.address nic := fun heq => hne (eq_of_address hnic' hnic heq)
    refine ⟨trivial, fun config w₂ hconfig => ?_⟩
    obtain ⟨rfl, rfl⟩ := hconfig
    simp only [Prog.bind_ok, h.generated.address]
    refine ⟨trivial, fun current w₃ hcurrent => ⟨trivial, fun config w₄ hconfig => ?_⟩⟩
    obtain ⟨rfl, rfl⟩ := hcurrent
    obtain ⟨rfl, rfl⟩ := hconfig
    simp only [Prog.bind_ok]
    split
    · have hunbind : r.Blind nic w₄ (.unbind (r.address nic') (w₄.driver (r.address nic'))) := trivial
      refine ⟨hunbind, fun _ w₅ hev₅ => ?_⟩
      have hbind : r.Blind nic w₅
          (.bind (r.address nic') (getValue w₄.config nic' oldDriver)) := fun heq => absurd heq haddress
      refine ⟨hbind, fun _ w₆ hev₆ => ?_⟩
      have hdel : r.Blind nic w₆ (.delValue nic' oldDriver) := rfl
      exact ⟨hdel, fun _ w₇ hev₇ => ((h.step hunbind hev₅).step hbind hev₆).step hdel hev₇⟩
    · exact h
  · exact h

theorem eachNic_lost {body : Word → NicOp Unit} {nics : List Word}
    (hbody : ∀ nic' ∈ r.nics, ∀ w, r.Lost nic w →
      (body nic').wp (onSysfs r.native) (r.Blind nic) (fun _ w' => r.Lost nic w') w)
    (hnics : ∀ nic' ∈ nics, nic' ∈ r.nics) (h : r.Lost nic w) :
    (eachNic body nics).wp (onSysfs r.native) (r.Blind nic) (fun _ w' => r.Lost nic w') w := by
  induction nics generalizing w with
  | nil => exact h
  | cons nic' nics ih =>
    obtain ⟨hnic', hnics⟩ := List.forall_mem_cons.mp hnics
    exact wp_bind (wp_mono (hbody nic' hnic' w h) fun _ _ h' => ih hnics h')

theorem bindNics_lost (h : r.Lost nic w) (hnic : nic ∈ r.nics) :
    bindNics.wp (onSysfs r.native) (r.Blind nic) (fun _ w' => r.Lost nic w') w :=
  loop_wp trivial h.generated
    (eachNic_lost (fun _ hnic' _ h' => bindDriver_lost h' hnic hnic') (fun _ hnic' => hnic') h)

theorem unbindNics_lost (h : r.Lost nic w) (hnic : nic ∈ r.nics) :
    unbindNics.wp (onSysfs r.native) (r.Blind nic) (fun _ w' => r.Lost nic w') w :=
  loop_wp trivial h.generated
    (eachNic_lost (fun _ hnic' _ h' => unbindDriver_lost h' hnic hnic') (fun _ hnic' => hnic') h)

/-! ### How a driver is lost -/

theorem Idle.drive {address driver : Word} (h : r.Idle nic w) (hne : r.address nic ≠ address) :
    r.Idle nic (w.drive address driver) :=
  ⟨h.generated, (Nics.driver_drive_of_ne hne).trans h.driver⟩

theorem bindDriver_idle (h : r.Idle nic w) (hnic : nic ∈ r.nics) (hnic' : nic' ∈ r.nics)
    (hne : nic' ≠ nic) :
    (bindDriver nic').wp (onSysfs r.native) (r.Blind nic) (fun _ w' => r.Idle nic w') w := by
  have haddress : r.address nic ≠ r.address nic' :=
    fun heq => hne (eq_of_address hnic hnic' heq).symm
  refine bindDriver_reads trivial trivial h.generated (fun _ => h) fun hdiffers => ?_
  refine take_blind hnic hnic' (fun heq => absurd heq hne) fun w₁ w₂ w₃ hw₁ hev₂ hev₃ => ?_
  have hw₂ : w₂ = if w₁.driver (r.address nic') = w.driver (r.address nic') then
      w₁.drive (r.address nic') [] else w₁ := hev₂
  have h₁ : r.Idle nic w₁ := by
    rw [hw₁]
    exact ⟨h.generated.set _ _, h.driver⟩
  have h₂ : r.Idle nic w₂ := by
    rw [hw₂]
    split
    · exact h₁.drive haddress
    · exact h₁
  rcases hev₃ with ⟨-, rfl⟩ | ⟨rfl, -⟩
  · exact h₂.drive haddress
  · exact h₂

theorem bindDriver_loses (h : r.Idle nic w) (hnic : nic ∈ r.nics) (htarget : r.target nic ≠ []) :
    (bindDriver nic).wp (onSysfs r.native) (r.Blind nic) (fun _ w' => r.Lost nic w') w := by
  refine bindDriver_reads trivial trivial h.generated (fun hsame => ?_) fun _ => ?_
  · exact absurd (hsame.symm.trans h.driver) htarget
  · refine take_blind hnic hnic (fun _ => h.driver) fun w₁ w₂ w₃ hw₁ hev₂ hev₃ => ?_
    have hlost : r.Lost nic w₁ := by
      rw [hw₁, h.driver]
      refine ⟨h.generated.set _ _, .inl h.driver, fun driver hdriver => ?_⟩
      exact (Option.some.inj (Nics.config_set.symm.trans hdriver)).symm
    have hunbind : r.Blind nic w₁ (.unbind (r.address nic) (w.driver (r.address nic))) := trivial
    have hbind : r.Blind nic w₂ (.bind (r.address nic) (r.target nic)) := fun _ => rfl
    exact (hlost.step hunbind hev₂).step hbind hev₃

theorem bindEach_loses {nics : List Word} (hnics : ∀ nic' ∈ nics, nic' ∈ r.nics)
    (hmem : nic ∈ nics) (h : r.Idle nic w) (htarget : r.target nic ≠ []) :
    (eachNic bindDriver nics).wp (onSysfs r.native) (r.Blind nic) (fun _ w' => r.Lost nic w') w := by
  induction nics generalizing w with
  | nil => cases hmem
  | cons nic' nics ih =>
    obtain ⟨hnic', hrest⟩ := List.forall_mem_cons.mp hnics
    have hnic := hnics nic hmem
    by_cases hsame : nic' = nic
    · subst hsame
      refine wp_bind (wp_mono (bindDriver_loses h hnic htarget) fun _ w' h' => ?_)
      exact eachNic_lost (fun _ hnic' _ h' => bindDriver_lost h' hnic hnic') hrest h'
    · refine wp_bind (wp_mono (bindDriver_idle h hnic hnic' hsame) fun _ w' h' => ?_)
      exact ih hrest ((List.mem_cons.mp hmem).resolve_left (Ne.symm hsame)) h'

end Lost

/-- Commands one after another, each of which may be stopped anywhere. -/
inductive Repeated : Nics → Nics → Prop where
  | refl {w : Nics} : Repeated w w
  | bindNics {w w₁ w₂ : Nics} {tr : List (Event NicCall Empty)} {p : NicOp Unit} :
      Repeated w w₁ → Steps bindNics tr p → Drives (onSysfs r.native) w₁ tr w₂ → Repeated w w₂
  | unbindNics {w w₁ w₂ : Nics} {tr : List (Event NicCall Empty)} {p : NicOp Unit} :
      Repeated w w₁ → Steps unbindNics tr p → Drives (onSysfs r.native) w₁ tr w₂ → Repeated w w₂

variable {r} in
theorem Lost.stopped {nic : Word} {w w' : Nics} {p q : NicOp Unit}
    {tr : List (Event NicCall Empty)} (h : r.Lost nic w)
    (hwp : p.wp (onSysfs r.native) (r.Blind nic) (fun _ w' => r.Lost nic w') w)
    (hsteps : Steps p tr q) (hdrives : Drives (onSysfs r.native) w tr w') : r.Lost nic w' :=
  wp_invariant (fun _ _ _ hw hblind hev => hw.step hblind hev) hsteps hdrives hwp h

variable {r} in
theorem Repeated.lost {nic : Word} {w w' : Nics} (h : r.Repeated w w') (hnic : nic ∈ r.nics)
    (hw : r.Lost nic w) : r.Lost nic w' := by
  induction h with
  | refl => exact hw
  | bindNics _ hsteps hdrives ih => exact ih.stopped (bindNics_lost ih hnic) hsteps hdrives
  | unbindNics _ hsteps hdrives ih => exact ih.stopped (unbindNics_lost ih hnic) hsteps hdrives

/-- **A driver is lost**: a `bind_nics` that is run to its end while a NIC has no driver forgets which
one it had, and no commands after it, each of them stopped anywhere, give it back. -/
theorem never_restored (nic : Word) (w w' w'' : Nics) (hnic : nic ∈ r.nics)
    (htarget : r.target nic ≠ []) (hforeign : r.target nic ≠ r.own nic) (hidle : r.Idle nic w)
    (tr : List (Event NicCall Empty)) (hruns : Runs (onSysfs r.native) w bindNics tr (.ok ()) w')
    (hrepeated : r.Repeated w' w'') : w''.driver (r.address nic) ≠ r.own nic := by
  have hwp : bindNics.wp (onSysfs r.native) (r.Blind nic) (fun _ w' => r.Lost nic w') w :=
    loop_wp trivial hidle.generated (bindEach_loses (fun _ hnic' => hnic') hnic hidle htarget)
  have hlost : r.Lost nic w' := wp_steps hruns.1 hruns.2 hwp
  have hdriver := (hrepeated.lost hnic hlost).driver
  intro hown
  rcases hdriver with hnone | hsame
  · exact r.named nic hnic (hown.symm.trans hnone)
  · exact hforeign (hsame.symm.trans hown)

/-- `bind_nics` once more: the old driver is recorded as none. -/
def taken : Nics :=
  ((unbound.set eth0 oldDriver (some [])).drive slot []).drive slot "vfio-pci".toList

theorem unbound_idle : vfio.Idle eth0 unbound where
  generated := booted_fresh.recoverable.generated.set eth0 (some ixgbe)
  driver := Nics.driver_drive

theorem taken_runs : Runs (onSysfs vfio.native) unbound bindNics
    (takesOff unbound.config eth0 [] ++ [⟨.bind slot "vfio-pci".toList, .ok ()⟩]) (.ok ()) taken := by
  have haddress : addressOf unbound.config eth0 = slot := unbound_idle.generated.address eth0
  have htarget : targetOf unbound.config eth0 = "vfio-pci".toList :=
    unbound_idle.generated.target eth0
  have hnics : words (listDpdkNics unbound.config) = [eth0] :=
    unbound_idle.generated.nics.trans vfioConfig_nics
  have htaken : [] ≠ targetOf unbound.config eth0 := by
    rw [htarget]
    decide
  have hsteps := takesOff_steps hnics htaken
  rw [haddress, htarget] at hsteps
  have hidle : (unbound.set eth0 oldDriver (some [])).driver slot = [] := unbound_idle.driver
  refine ⟨hsteps.trans (.ret .nil), ?_⟩
  rw [takesOff, haddress]
  refine .cons ⟨rfl, rfl⟩ (.cons ⟨rfl, rfl⟩ (.cons ⟨unbound_idle.driver.symm, rfl⟩ ?_))
  refine .cons ⟨rfl, rfl⟩ (.cons rfl (.cons (if_pos hidle).symm ?_))
  exact .cons (.inl ⟨Nics.driver_drive, rfl⟩) .nil

theorem vfio_never_restored : taken.driver (vfio.address eth0) ≠ ixgbe := by
  have htarget : vfio.target eth0 ≠ [] ∧ vfio.target eth0 ≠ ixgbe := by decide
  exact never_restored vfio eth0 unbound taken taken (mem_vfio.mpr rfl) htarget.1 htarget.2
    unbound_idle _ taken_runs .refl

end Rig

end OvsDpdk
end KollaPowerOps
