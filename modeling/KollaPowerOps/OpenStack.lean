import Mathlib.Data.PNat.Defs
import Mathlib.Data.PNat.Notation
import KollaPowerOps.Lib.Effect

/-!
# OpenStack

The services that the PowerOps plugins talk to, as the plugins see them: the attributes they read
from the resources of Ironic, Nova, Masakari and Neutron, the calls they make on a connection and
on Redis, and the exceptions they raise themselves.

A missing attribute, an attribute that is `None` and a `getattr` default of `None` are all `none`.
-/

namespace KollaPowerOps

open Effect

/-- An Ironic Node (`baremetal`). -/
structure Node where
  id : String
  name : Option String := none
  powerState : Option String := none
  targetPowerState : Option String := none
  lastError : Option String := none
  deriving DecidableEq, Repr

/-- A Nova service (`compute`). -/
structure NovaService where
  id : String
  host : Option String := none
  binary : Option String := none
  status : Option String := none
  state : Option String := none
  deriving DecidableEq, Repr

/-- A Nova server. The last field is the attribute `OS-EXT-SRV-ATTR:hypervisor_hostname`. -/
structure Server where
  id : String
  name : Option String := none
  status : Option String := none
  hypervisorHostname : Option String := none
  extHypervisorHostname : Option String := none
  deriving DecidableEq, Repr

/-- `getattr(server, "status", "UNKNOWN")` -/
def Server.statusText (server : Server) : String := server.status.getD "UNKNOWN"

/-- A Masakari segment (`instance_ha`). -/
structure Segment where
  id : String
  deriving DecidableEq, Repr

structure MasakariHost where
  id : String
  name : Option String := none
  onMaintenance : Option Bool := none
  deriving DecidableEq, Repr

/-- `bool(getattr(host, "on_maintenance", False))` -/
def MasakariHost.maintained (host : MasakariHost) : Bool := host.onMaintenance.getD false

/-- A Neutron agent (`network`). -/
structure Agent where
  binary : Option String := none
  isAlive : Option Bool := none
  deriving DecidableEq, Repr

/-- Truth of an attribute in a Python condition: set and not empty. -/
def truthy : Option String → Bool
  | some s => s != ""
  | none => false

/-- The calls, indexed by what they return. -/
inductive Call : Type → Type where
  | nodes : Call (List Node)
  | getNode (node : Node) : Call Node
  | setNodePowerState (node : Node) (target : String) : Call Unit
  | services (host : String) : Call (List NovaService)
  | enableService (service : NovaService) : Call Unit
  | disableService (service : NovaService) (reason : String) : Call Unit
  | servers (host : String) : Call (List Server)
  | liveMigrateServer (server : Server) : Call Unit
  | stopServer (server : Server) : Call Unit
  | segments : Call (List Segment)
  | hosts (segment : Segment) : Call (List MasakariHost)
  | updateHost (host : MasakariHost) (segment : Segment) (onMaintenance : Bool) : Call Unit
  | agents (host : String) : Call (List Agent)
  /-- `SET key value NX PX px`, true when the key was set -/
  | redisSet (key value : String) (px : ℕ+) : Call Bool
  /-- `EVAL` of the refresh script, with its integer reply -/
  | redisRefresh (key owner : String) (px : ℕ+) : Call Nat
  /-- `EVAL` of the release script, with its integer reply -/
  | redisRelease (key owner : String) : Call Nat
  | sleep (seconds : Int) : Call Unit
  /-- the audit log line; returns the event id -/
  | logAudit (host event outcome : String) : Call String

/-- The exceptions, each with its text. `raised` is any exception that a call itself raises. -/
inductive Exn where
  | mappingError (message : String)
  | hostNotEmpty (message : String)
  | powerTimeout (message : String)
  | unsupportedPowerTarget (message : String)
  | unsupportedInstancePolicy (message : String)
  | hostReturnNotSafe (message : String)
  | valueError (message : String)
  | hostRecoveryFailure (message : String)
  | raised (message : String)
  deriving DecidableEq, Repr

/-- A program over these calls. -/
abbrev Op (α : Type) : Type 1 := Prog Call Exn α

abbrev CallEvent : Type 1 := Event Call Exn

abbrev Trace : Type 1 := List CallEvent

/-- Raise an exception. -/
abbrev raise {α : Type} (e : Exn) : Op α := Prog.raise e

namespace Connection

abbrev nodes : Op (List Node) := Prog.request .nodes
abbrev getNode (node : Node) : Op Node := Prog.request (.getNode node)
abbrev setNodePowerState (node : Node) (target : String) : Op Unit :=
  Prog.request (.setNodePowerState node target)
abbrev services (host : String) : Op (List NovaService) := Prog.request (.services host)
abbrev enableService (service : NovaService) : Op Unit := Prog.request (.enableService service)
abbrev disableService (service : NovaService) (reason : String) : Op Unit :=
  Prog.request (.disableService service reason)
abbrev servers (host : String) : Op (List Server) := Prog.request (.servers host)
abbrev liveMigrateServer (server : Server) : Op Unit := Prog.request (.liveMigrateServer server)
abbrev stopServer (server : Server) : Op Unit := Prog.request (.stopServer server)
abbrev segments : Op (List Segment) := Prog.request .segments
abbrev hosts (segment : Segment) : Op (List MasakariHost) := Prog.request (.hosts segment)
abbrev updateHost (host : MasakariHost) (segment : Segment) (onMaintenance : Bool) : Op Unit :=
  Prog.request (.updateHost host segment onMaintenance)
abbrev agents (host : String) : Op (List Agent) := Prog.request (.agents host)
abbrev sleep (seconds : Int) : Op Unit := Prog.request (.sleep seconds)

end Connection

/-- The program goes on only if the collection has exactly one element. -/
def exactlyOne {ρ : Type} (e : Exn) : List ρ → Op ρ
  | [x] => pure x
  | _ => raise e

/-- `if attempt + 1 < attempts: sleep(interval)`, with `n` attempts left. -/
def sleepBetween (n : Nat) (interval : Int) : Op Unit :=
  if 0 < n then Connection.sleep interval else pure ()

/-- Exactly the calls that change the power of a node, a Nova service, a server or Masakari
maintenance. -/
def Call.mutating {τ : Type} : Call τ → Bool
  | .setNodePowerState _ _ => true
  | .enableService _ => true
  | .disableService _ _ => true
  | .liveMigrateServer _ => true
  | .stopServer _ => true
  | .updateHost _ _ _ => true
  | _ => false

/-- The calls that change nothing. -/
def Call.reading {τ : Type} : Call τ → Bool
  | .nodes => true
  | .getNode _ => true
  | .services _ => true
  | .servers _ => true
  | .segments => true
  | .hosts _ => true
  | .agents _ => true
  | .sleep _ => true
  | .logAudit _ _ _ => true
  | _ => false

@[simp] theorem returns_exactlyOne {ρ : Type} {e : Exn} {xs : List ρ} {x : ρ} {tr : Trace} :
    Returns (exactlyOne e xs) tr x ↔ tr = [] ∧ xs = [x] := by
  cases xs with
  | nil => simp [exactlyOne]
  | cons y ys =>
    cases ys with
    | nil => simp [exactlyOne]
    | cons z zs => simp [exactlyOne]

theorem finishes_exactlyOne {ρ : Type} {e : Exn} {xs : List ρ} {tr : Trace} {r : Except Exn ρ}
    (h : Finishes (exactlyOne e xs) tr r) :
    tr = [] ∧ ((∃ x, xs = [x] ∧ r = .ok x) ∨ xs.length ≠ 1 ∧ r = .error e) := by
  cases xs with
  | nil =>
    obtain ⟨rfl, rfl⟩ := finishes_raise.mp h
    exact ⟨rfl, .inr ⟨by simp, rfl⟩⟩
  | cons y ys =>
    cases ys with
    | nil =>
      obtain ⟨rfl, rfl⟩ := finishes_done.mp h
      exact ⟨rfl, .inl ⟨y, rfl, rfl⟩⟩
    | cons z zs =>
      obtain ⟨rfl, rfl⟩ := finishes_raise.mp h
      exact ⟨rfl, .inr ⟨by simp, rfl⟩⟩

/-- Its result is an element of the collection. -/
theorem exactlyOne_within {ρ : Type} {e : Exn} {xs : List ρ} {P : ∀ {τ : Type}, Call τ → Prop} :
    (exactlyOne e xs).Within P fun x => x ∈ xs := by
  cases xs with
  | nil => trivial
  | cons y ys =>
    cases ys with
    | nil => exact List.mem_singleton.mpr rfl
    | cons z zs => trivial

/-- Between two attempts nothing happens but sleeping. -/
theorem sleepBetween_uses {n : Nat} {interval : Int} {P : ∀ {τ : Type}, Call τ → Prop}
    (h : P (.sleep interval)) : (sleepBetween n interval).Uses P := by
  unfold sleepBetween
  split
  · exact ⟨h, fun _ => trivial⟩
  · trivial

theorem returns_sleepBetween {n : Nat} {interval : Int} {tr : Trace} {u : Unit}
    (h : Returns (sleepBetween n interval) tr u) : tr = [] ∨ tr = [⟨.sleep interval, .ok ()⟩] := by
  unfold sleepBetween at h
  split at h
  · simp only [Prog.request, returns_call, returns_ok] at h
    obtain ⟨_, _, rfl, rfl, _⟩ := h
    exact .inr rfl
  · exact .inl (returns_ok.mp h).1

theorem sleepBetween_quiet (n : Nat) (interval : Int) : (sleepBetween n interval).Quiet := by
  unfold sleepBetween
  split
  · exact fun _ => trivial
  · trivial

end KollaPowerOps
