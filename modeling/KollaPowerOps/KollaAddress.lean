import KollaPowerOps.HaproxyServices
import KollaPowerOps.Lib.IpAddress

/-!
# KollaAddress

The filter `kolla_address`, which finds the address of a host on a network.

* `kollaAddress`  : the filter.
* `NeverVip`      : what the exclusion of the VIPs is there for.
* `never_vip_iff` : when it does that. The addresses are compared as texts, so that a VIP in
  another spelling is not excluded.
-/

namespace KollaPowerOps
namespace KollaAddress

open HaproxyServices (Text FilterError)
open scoped HaproxyServices
open Ip

/-! ## The variables -/

structure Ipv6Fact where
  address : Text
  scope : Text
  deriving DecidableEq

/-- The facts of an interface, for each address family. -/
structure Interface where
  ipv4 : Option (Option Text) := none
  ipv6 : Option (List Ipv6Fact) := none

/-- The variables of a host. One that is there may be `None`; for `enable_haproxy` and the facts
this is as if it were missing. -/
structure Host (V : Type) where
  vars : Text → Option (Option Text)
  enableHaproxy : Option V
  ansibleFacts : Text → Option Interface

def Host.get {V : Type} (host : Host V) (name : Text) : Option Text := (host.vars name).join

structure Context (V : Type) where
  inventoryHostname : Option Text
  hostvars : Option (Text → Option (Host V))

/-! ## The filter -/

/-- `raise FilterError(...)` unless there is a value. -/
def require {α : Type} (message : List Text) : Option α → Except FilterError α
  | some a => .ok a
  | none => .error ⟨message.flatten⟩

def quoted (s : Text) : Text := '\'' :: s ++ ['\'']

def ipv4 : Text := "ipv4".toList
def ipv6 : Text := "ipv6".toList
def globalScope : Text := "global".toList

/-- The VIPs, where there are some. -/
def vipAddresses {V : Type} (host : Host V) (haproxyEnabled : Bool) : List (Option Text) :=
  if haproxyEnabled then
    [host.get "kolla_internal_vip_address".toList, host.get "kolla_external_vip_address".toList]
  else []

def globalIpv6Addresses (vips : List (Option Text)) (interface : List Ipv6Fact) : List Ipv6Fact :=
  interface.filter fun x => x.scope = globalScope ∧ some x.address ∉ vips

section

variable {V : Type} (lower : Text → Text) (bool : V → Bool)

def ipv6Address (host : Host V) (interface : List Ipv6Fact) : Except FilterError (Option Text) := do
  let haproxyEnabled ← require ["'enable_haproxy' variable is unavailable".toList] host.enableHaproxy
  let vips := vipAddresses host (bool haproxyEnabled)
  .ok ((globalIpv6Addresses vips interface).head?.map Ipv6Fact.address)

def addressOf (host : Host V) (family : Text) (missing : List Text) (interface : Interface) :
    Except FilterError (Option Text) :=
  if family = ipv4 then require missing interface.ipv4
  else do ipv6Address bool host (← require missing interface.ipv6)

/-- What follows the override. -/
def interfaceAddress (host : Host V) (hostname networkName : Text) : Except FilterError Text := do
  let interfaceName ← require
    ["Interface name undefined for network ".toList, quoted networkName, " (set '".toList,
      networkName, "_interface')".toList]
    (host.get (networkName ++ "_interface".toList))
  let family ← require
    ["Address family undefined for network ".toList, quoted networkName, " (set '".toList,
      networkName, "_address_family')".toList]
    (host.get (networkName ++ "_address_family".toList))
  let family := lower family
  if family ∉ [ipv4, ipv6] then
    .error ⟨["Unknown address family ".toList, quoted family, " for network ".toList,
      quoted networkName].flatten⟩
  else
    let interface ← require
      ["Interface ".toList, quoted interfaceName, " not present on host ".toList, quoted hostname]
      (host.ansibleFacts (interfaceName.map fun c => if c = '-' then '_' else c))
    let address ← addressOf bool host family
      ["Address family ".toList, quoted family, " undefined on interface ".toList,
        quoted interfaceName, " for host: ".toList, quoted hostname] interface
    require [family, " address missing on interface ".toList, quoted interfaceName,
      " for host ".toList, quoted hostname] address

/-- The variable that overrides the address, where it is set. -/
def override? (host : Host V) (overrideVar : Option Text) : Option (Text × Option Text) :=
  overrideVar.bind fun var => (host.vars var).map fun value => (var, value)

def kollaAddress (context : Context V) (networkName : Text) (hostname overrideVar : Option Text) :
    Except FilterError Text := do
  let hostname ← require ["'inventory_hostname' variable is unavailable".toList]
    (hostname.or context.inventoryHostname)
  let hostvars ← require ["'hostvars' variable is unavailable".toList] context.hostvars
  let host ← require [quoted hostname, " not in 'hostvars'".toList] (hostvars hostname)
  match override? host overrideVar with
  | some (var, value) =>
    require ["variable ".toList, quoted var, " for host ".toList, quoted hostname,
      " is set to ".toList, quoted (value.getD "None".toList),
      ", which is not a valid IPv4 or IPv6 address".toList]
      ((value.bind ipAddress?).map Address.text)
  | none => interfaceAddress lower bool host hostname networkName

/-! ## The exclusion -/

/-- The two texts denote one IPv6 address. -/
def SameAddress (a b : Text) : Prop := ∃ v, ipv6? a = some v ∧ ipv6? b = some v

def IsVip (host : Host V) (address : Text) : Prop :=
  ∃ vip, some vip ∈ vipAddresses host true ∧ SameAddress address vip

def global (interface : List Ipv6Fact) : List Text :=
  (interface.filter fun x => x.scope = globalScope).map Ipv6Fact.address

/-- The filter comes to select an IPv6 address of an interface, with haproxy enabled. -/
structure Selects (context : Context V) (networkName : Text) (hostname overrideVar : Option Text)
    (host : Host V) (interface : List Ipv6Fact) : Prop where
  found : ∃ name hostvars, hostname.or context.inventoryHostname = some name ∧
    context.hostvars = some hostvars ∧ hostvars name = some host
  override : override? host overrideVar = none
  family : ∃ family, host.get (networkName ++ "_address_family".toList) = some family ∧
    lower family = ipv6
  interface : ∃ name facts, host.get (networkName ++ "_interface".toList) = some name ∧
    host.ansibleFacts (name.map fun c => if c = '-' then '_' else c) = some facts ∧
    facts.ipv6 = some interface
  haproxy : ∃ v, host.enableHaproxy = some v ∧ bool v = true

/-- A selected address is a global one and no VIP, and nothing is selected where there are only
VIPs. -/
def NeverVip (context : Context V) (networkName : Text) (hostname overrideVar : Option Text) : Prop :=
  ∀ host interface, Selects lower bool context networkName hostname overrideVar host interface →
    (∀ address, kollaAddress lower bool context networkName hostname overrideVar = .ok address →
      address ∈ global interface ∧ ¬IsVip host address) ∧
    ((∀ address ∈ global interface, IsVip host address) →
      ∃ e, kollaAddress lower bool context networkName hostname overrideVar = .error e)

/-- Whatever is a VIP in another spelling stands behind some address that is none. -/
def Shadowed (host : Host V) (interface : List Ipv6Fact) : Prop :=
  ∀ before address after, global interface = before ++ address :: after → IsVip host address →
    some address ∉ vipAddresses host true →
    ∃ other ∈ before, some other ∉ vipAddresses host true ∧ ¬IsVip host other

variable {lower bool}

theorem head?_globalIpv6Addresses (vips : List (Option Text)) (interface : List Ipv6Fact) :
    (globalIpv6Addresses vips interface).head?.map Ipv6Fact.address =
      (global interface).find? fun address => some address ∉ vips := by
  induction interface with
  | nil => rfl
  | cons x interface ih =>
    rw [globalIpv6Addresses, global] at ih ⊢
    by_cases hscope : x.scope = globalScope
    · by_cases hvip : some x.address ∈ vips
      · rw [List.filter_cons_of_neg (by simp [hvip]), List.filter_cons_of_pos (by simp [hscope]),
          List.map_cons, List.find?_cons_of_neg (by simp [hvip]), ih]
      · rw [List.filter_cons_of_pos (by simp [hscope, hvip]),
          List.filter_cons_of_pos (by simp [hscope]), List.map_cons,
          List.find?_cons_of_pos (by simp [hvip])]
        rfl
    · rw [List.filter_cons_of_neg (by simp [hscope]), List.filter_cons_of_neg (by simp [hscope]), ih]

theorem require_some {α : Type} (message : List Text) (a : α) :
    require message (some a) = .ok a := rfl

theorem ipv6Address_eq {host : Host V} {v : V} (hv : host.enableHaproxy = some v)
    (hbool : bool v = true) (interface : List Ipv6Fact) :
    ipv6Address bool host interface =
      .ok ((global interface).find? fun address => some address ∉ vipAddresses host true) := by
  rw [ipv6Address, hv, require_some, pyOk_bind, hbool, ← head?_globalIpv6Addresses]

/-- What the filter does once it selects: the first global address that is no VIP, as a text. -/
theorem kollaAddress_of_selects {context : Context V} {networkName : Text}
    {hostname overrideVar : Option Text} {host : Host V} {interface : List Ipv6Fact}
    (h : Selects lower bool context networkName hostname overrideVar host interface) :
    ∃ message, kollaAddress lower bool context networkName hostname overrideVar =
      require message ((global interface).find? fun address =>
        some address ∉ vipAddresses host true) := by
  obtain ⟨⟨name, hostvars, hname, hhostvars, hhost⟩, hoverride, ⟨family, hfamily, hipv6⟩,
    ⟨interfaceName, facts, hinterface, hfacts, haddresses⟩, v, hv, hbool⟩ := h
  have hfamilies : ¬ipv6 ∉ [ipv4, ipv6] := not_not.mpr (List.mem_cons_of_mem _ List.mem_cons_self)
  have hne : ipv6 ≠ ipv4 := by decide
  rw [kollaAddress, hname, hhostvars, require_some, pyOk_bind, require_some, pyOk_bind, hhost,
    require_some, pyOk_bind, hoverride]
  dsimp only
  rw [interfaceAddress, hinterface, require_some, pyOk_bind, hfamily, require_some, pyOk_bind, hipv6]
  dsimp only
  rw [if_neg hfamilies, hfacts, require_some, pyOk_bind, addressOf, if_neg hne, haddresses,
    require_some, pyOk_bind, ipv6Address_eq hv hbool, pyOk_bind]
  exact ⟨_, rfl⟩

theorem shadowed_iff {host : Host V} {interface : List Ipv6Fact} :
    Shadowed host interface ↔ ∀ address,
      (global interface).find? (fun address => some address ∉ vipAddresses host true) = some address →
        ¬IsVip host address := by
  constructor
  · intro h address hfirst hvip
    obtain ⟨hout, before, after, hsplit, hbefore⟩ := List.find?_eq_some_iff_append.mp hfirst
    obtain ⟨other, hother, hout', -⟩ := h before address after hsplit hvip (of_decide_eq_true hout)
    exact absurd (hbefore other hother) (by simpa using hout')
  · intro h before address after hsplit hvip hout
    -- the first address that is not excluded comes no later than this one
    cases hfirst : before.find? fun address => some address ∉ vipAddresses host true with
    | none =>
      refine absurd hvip (h address ?_)
      rw [hsplit, List.find?_append, hfirst, Option.none_or, List.find?_cons_of_pos (by simpa using hout)]
    | some other =>
      refine ⟨other, List.mem_of_find?_eq_some hfirst, ?_, h other ?_⟩
      · simpa using List.find?_some hfirst
      · rw [hsplit, List.find?_append, hfirst, Option.some_or]

variable (lower bool)

/-- The filter never selects a VIP just when each VIP in another spelling stands behind an address
that is none. -/
theorem never_vip_iff (context : Context V) (networkName : Text)
    (hostname overrideVar : Option Text) :
    NeverVip lower bool context networkName hostname overrideVar ↔
      ∀ host interface, Selects lower bool context networkName hostname overrideVar host interface →
        Shadowed host interface := by
  refine forall₃_congr fun host interface hselects => ?_
  obtain ⟨message, hrun⟩ := kollaAddress_of_selects hselects
  rw [hrun, shadowed_iff]
  cases hfirst : (global interface).find? fun address => some address ∉ vipAddresses host true with
  | none => exact iff_of_true ⟨nofun, fun _ => ⟨_, rfl⟩⟩ nofun
  | some address =>
    have hmem := List.mem_of_find?_eq_some hfirst
    rw [require_some]
    constructor
    · rintro ⟨h, -⟩ _ ⟨rfl⟩
      exact (h address rfl).2
    · intro h
      refine ⟨?_, fun hall => absurd (hall address hmem) (h address rfl)⟩
      rintro _ ⟨rfl⟩
      exact ⟨hmem, h address rfl⟩

end

/-- A host with the VIP as its first address. -/
def vipHost : Host Bool where
  vars name :=
    if name = "api_interface".toList then some (some "eth0".toList)
    else if name = "api_address_family".toList then some (some ipv6)
    else if name = "kolla_internal_vip_address".toList then some (some "FD00::100".toList)
    else none
  enableHaproxy := some true
  ansibleFacts name :=
    if name = "eth0".toList then
      some { ipv6 := some [⟨"fd00::100".toList, globalScope⟩, ⟨"fd00::10".toList, globalScope⟩] }
    else none

def vipContext : Context Bool where
  inventoryHostname := some "primary".toList
  hostvars := some fun name => if name = "primary".toList then some vipHost else none

theorem upper_case_vip_selected : ¬NeverVip id id vipContext "api".toList none none := by
  intro h
  have hselects : Selects id id vipContext "api".toList none none vipHost
      [⟨"fd00::100".toList, globalScope⟩, ⟨"fd00::10".toList, globalScope⟩] := by
    refine ⟨⟨_, _, rfl, rfl, if_pos rfl⟩, rfl, ⟨_, rfl, rfl⟩, ⟨_, _, rfl, rfl, rfl⟩, _, rfl, rfl⟩
  refine ((h _ _ hselects).1 "fd00::100".toList (by rfl)).2 ⟨"FD00::100".toList, ?_, ?_⟩
  · decide
  · exact ⟨{ number := 0xfd000000000000000000000000000100 }, by decide, by decide⟩

end KollaAddress
end KollaPowerOps
