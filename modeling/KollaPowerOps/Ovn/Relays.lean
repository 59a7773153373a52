import Mathlib.Algebra.Order.Floor.Semiring
import Mathlib.Data.PNat.Basic
import Mathlib.Data.Rat.Floor
import KollaPowerOps.Lib.PyNumber

/-!
# Ovn.Relays

The ports of the southbound relays, as each place of the playbooks computes them.

* `commandPort`, `configPort` : the port in the command line, and in `ovsdb-relay.json`.
* `waitPort`, `clientPort`    : the port that the role waits for, and that a client connects to.
* `reachable_iff`             : they are one port just when no two-digit relay runs on Debian.
-/

namespace KollaPowerOps
namespace Ovn

open PyNumber

inductive BaseDistro where
  | centos
  | debian
  | rocky
  | ubuntu
  deriving DecidableEq, Repr

/-- The filter `random(seed=...)`: for every seed an item of what it chooses from. -/
structure RandomFilter (H : Type) where
  choose : H → List Nat → Nat
  choose_mem : ∀ seed xs, xs ≠ [] → choose seed xs ∈ xs

/-- `((groups['ovn-controller'] | length) / ovn_sb_db_relay_compute_per_relay) | round(0, 'ceil')` -/
def relayCount (controllers computePerRelay : Nat) : Nat :=
  ⌈(controllers : ℚ) / (computePerRelay : ℚ)⌉₊

structure RelayVars (H : Type) where
  baseDistro : BaseDistro
  count : ℕ+
  portPrefix : ℕ+ := 1664
  random : RandomFilter H

namespace RelayVars

variable {H : Type} (v : RelayVars H)

/-- `range(1, ovn_sb_db_relay_count | int + 1)` -/
def relayIds : List Nat := List.range' 1 v.count

/-- `(ovn_sb_db_relay_port_prefix | int) * 10 + (id | int)` -/
def relayPort (id : Nat) : Nat := v.portPrefix * 10 + id

/-! ## The places -/

/-- The port of `--remote=ptcp:{{ ovn_sb_db_relay_port_prefix ~ ovn_sb_db_relay_group_id }}`. -/
def commandPort (id : Nat) : Nat := digitsValue (decimal v.portPrefix ++ decimal id)

def configPort (id : Nat) : Nat := v.relayPort id

def listenPort (id : Nat) : Nat :=
  match v.baseDistro with
  | .debian => v.commandPort id
  | _ => v.configPort id

def waitPort (id : Nat) : Nat := v.relayPort id

def clientGroupId (host : H) : Nat := v.random.choose host v.relayIds

/-- The port of a client, for the group that is its own. -/
def clientPort (groupId : Nat) : Nat := v.relayPort groupId

structure Reachable : Prop where
  wait : ∀ id ∈ v.relayIds, v.waitPort id = v.listenPort id
  client : ∀ id ∈ v.relayIds, v.clientPort id = v.listenPort id
  distinct : ∀ id ∈ v.relayIds, ∀ id' ∈ v.relayIds, v.listenPort id = v.listenPort id' → id = id'
  group : ∀ host, v.clientGroupId host ∈ v.relayIds

end RelayVars

/-! ## What the ports are -/

/-- A relay count that comes of hosts is positive. -/
theorem relayCount_pos {controllers computePerRelay : Nat} (hosts : 0 < controllers)
    (hrelay : 0 < computePerRelay) : 0 < relayCount controllers computePerRelay := by
  rw [relayCount, Nat.ceil_pos]
  exact div_pos (Nat.cast_pos.mpr hosts) (Nat.cast_pos.mpr hrelay)

namespace RelayVars

variable {H : Type} {v : RelayVars H}

theorem mem_relayIds {id : Nat} : id ∈ v.relayIds ↔ 1 ≤ id ∧ id ≤ v.count := by
  rw [relayIds, List.mem_range'_1]
  omega

theorem commandPort_eq (id : Nat) :
    v.commandPort id = v.portPrefix * 10 ^ (Nat.toDigits 10 id).length + id := by
  have hprefix : digitsValue (decimal v.portPrefix) = v.portPrefix := digitsValue_toDigits _
  have hid : digitsValue (decimal id) = id := digitsValue_toDigits id
  rw [commandPort, digitsValue_append, hprefix, hid]
  rfl

/-- Joined and added up, the ports are the same for an id of one digit. -/
theorem commandPort_eq_iff (id : Nat) : v.commandPort id = v.relayPort id ↔ id < 10 := by
  rw [commandPort_eq, relayPort, Nat.add_right_cancel_iff]
  constructor
  · intro h
    by_contra hlong
    have hlength : 2 ≤ (Nat.toDigits 10 id).length := by
      rw [Nat.toDigits_of_base_le (by decide) (by omega), List.length_append]
      have hne := List.length_pos_iff.mpr (Nat.toDigits_ne_nil (n := id / 10) (b := 10))
      rw [List.length_singleton]
      omega
    have hpow : 10 ^ 2 ≤ 10 ^ (Nat.toDigits 10 id).length := Nat.pow_le_pow_right (by decide) hlength
    have hle := Nat.mul_le_mul_left (v.portPrefix : Nat) hpow
    have hpos := v.portPrefix.pos
    omega
  · intro hid
    rw [Nat.toDigits_of_lt_base hid]
    rfl

theorem listenPort_eq_iff (id : Nat) :
    v.listenPort id = v.relayPort id ↔ v.baseDistro = .debian → id < 10 := by
  rw [listenPort]
  cases hdistro : v.baseDistro with
  | debian => simp [commandPort_eq_iff]
  | _ => simp [configPort]

/-- **The relays are reachable** just when none of two digits listens by the command line. -/
theorem reachable_iff (v : RelayVars H) :
    v.Reachable ↔ v.baseDistro = .debian → (v.count : Nat) ≤ 9 := by
  constructor
  · intro h hdebian
    have hcount : (v.count : Nat) ∈ v.relayIds := mem_relayIds.mpr ⟨v.count.pos, le_refl _⟩
    have hlast := (listenPort_eq_iff _).mp (h.wait _ hcount).symm hdebian
    omega
  · intro h
    have hsmall : ∀ id ∈ v.relayIds, v.listenPort id = v.relayPort id := by
      intro id hid
      rw [listenPort_eq_iff]
      intro hdebian
      have hle := (mem_relayIds.mp hid).2
      have hcount := h hdebian
      omega
    refine ⟨fun id hid => (hsmall id hid).symm, fun id hid => (hsmall id hid).symm, ?_, ?_⟩
    · intro id hid id' hid' hport
      rw [hsmall id hid, hsmall id' hid', relayPort, relayPort] at hport
      omega
    · intro host
      refine v.random.choose_mem host v.relayIds ?_
      have hone : 1 ∈ v.relayIds := mem_relayIds.mpr ⟨le_refl 1, v.count.pos⟩
      exact List.ne_nil_of_mem hone

/-- The first of all for every client. -/
def firstChosen : RandomFilter Unit where
  choose _ xs := xs.headD 0
  choose_mem _ xs hne := by
    obtain ⟨x, xs, rfl⟩ := List.exists_cons_of_ne_nil hne
    exact List.mem_cons_self

/-- Five hundred hosts, on Debian. -/
def tenRelays : RelayVars Unit where
  baseDistro := .debian
  count := ⟨relayCount 500 50, relayCount_pos (by decide) (by decide)⟩
  random := firstChosen

/-- The tenth relay listens on a port that is none. -/
theorem tenth_relay_unreachable :
    tenRelays.listenPort 10 = 166410 ∧ tenRelays.clientPort 10 = 16650 ∧
      ¬ tenRelays.Reachable := by
  have hlisten : tenRelays.listenPort 10 = 166410 := by decide
  have hclient : tenRelays.clientPort 10 = 16650 := by decide
  refine ⟨hlisten, hclient, fun h => ?_⟩
  have hcount : relayCount 500 50 = 10 := by
    rw [relayCount]
    norm_num
  have hmem : 10 ∈ tenRelays.relayIds := mem_relayIds.mpr ⟨by decide, hcount.ge⟩
  have hport := h.client 10 hmem
  rw [hlisten, hclient] at hport
  cases hport

end RelayVars
end Ovn
end KollaPowerOps
