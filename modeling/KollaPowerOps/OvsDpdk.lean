import KollaPowerOps.Lib.Matching
import KollaPowerOps.Lib.PyNumber
import KollaPowerOps.Lib.ShellWords
import Mathlib.Data.Char
import Mathlib.Data.List.Lex

/-!
# OvsDpdk

The ports that `ovs-dpdkctl.sh` adds for the NICs of `port_mappings`.

* `initOvsInterfaces` : the function of the script, over the configuration that `crudini` reads.
* `inPciOrder`        : the ports that DPDK's numbering of the devices calls for.
* `numbered_iff`      : they are the same just when `port_mappings` names the bridges in that order.
-/

namespace KollaPowerOps
namespace OvsDpdk

open Shell

/-! ## Addresses -/

structure PciAddress where
  domain : Nat
  bus : Fin 256
  device : Fin 32
  function : Fin 8
  deriving DecidableEq

def hex (width n : Nat) : Word := (Nat.toDigits 16 n).leftpad width '0'

namespace PciAddress

/-- As it stands in sysfs. -/
def text (a : PciAddress) : Word :=
  hex 4 a.domain ++ ':' :: hex 2 a.bus ++ ':' :: hex 2 a.device ++ '.' :: hex 1 a.function

/-- The number by which DPDK compares devices. -/
def number (a : PciAddress) : Nat := ((a.domain * 256 + a.bus) * 32 + a.device) * 8 + a.function

end PciAddress

/-! ## The script -/

/-- What `crudini --get` prints for a section and a key. -/
abbrev Config := Word → Word → Option Word

/-- `$(get_value section key)` -/
def getValue (config : Config) (sect key : Word) : Word := (config sect key).getD []

/-- What `list_dpdk_nics` prints. -/
def listDpdkNics (config : Config) : List Char :=
  (words (cut ':' 0 (tr ',' '\n' (getValue config "ovs".toList "port_mappings".toList)))).flatMap
    fun nic => echo [nic]

def getPortBridge (config : Config) (nic : Word) : Word :=
  let pairs := words (tr ',' '\n' (getValue config "ovs".toList "port_mappings".toList))
  match pairs.find? fun pair => field ':' 0 pair = nic with
  | some pair => field ':' 1 pair
  | none => []

/-- `ovs-vsctl ... add-port $bridge $port -- set Interface $port type=dpdk`, maybe with
`options:dpdk-devargs`. -/
structure AddPort where
  bridge : Word
  port : Word
  devargs : Option Word := none
  deriving DecidableEq

def dpdkPort (i : Nat) : Word := "dpdk".toList ++ PyNumber.decimal i

/-- The body of the second loop. -/
def addPort (config : Config) (pair : Word) (i : Nat) : AddPort :=
  let addr := field ',' 0 pair
  let nic := field ',' 1 pair
  let bridge := getPortBridge config nic
  if getValue config "ovs".toList "physical_port_policy".toList = "indexed".toList then
    { bridge, port := dpdkPort i }
  else
    { bridge, port := nic, devargs := some addr }

/-- The first loop, for the pairs so far. -/
def joinPair (config : Config) (pairs : List Char) (nic : Word) : List Char :=
  let pair := getValue config nic "address".toList ++ ',' :: nic
  if pairs = [] then pair else pairs ++ ' ' :: pair

def initOvsInterfaces (collate : Word → Word → Bool) (config : Config) : List AddPort :=
  let pairs := (words (listDpdkNics config)).foldl (joinPair config) []
  let pairs := sort collate (echo (words pairs))
  (words pairs).zipIdx.map fun (pair, i) => addPort config pair i

/-! ## What the ports should be -/

/-- A name without the characters by which the script or the shell takes words apart. -/
structure Plain (w : Word) : Prop extends Whole w where
  separators : ',' ∉ w ∧ ':' ∉ w
  pattern : ∀ c ∈ w, c ∉ ['*', '?', '[', '\\']
  option : w.head? ≠ some '-'

structure PortMapping where
  nic : Word
  bridge : Word

def PortMapping.text (m : PortMapping) : Word := m.nic ++ ':' :: m.bridge

/-- A configuration with some NICs in `port_mappings`, for the policy `indexed`. -/
structure Deployment where
  mappings : List PortMapping
  address : Word → PciAddress
  config : Config
  plain : ∀ m ∈ mappings, Plain m.nic ∧ Plain m.bridge
  distinct : (mappings.map fun m => address m.nic).Nodup
  listed : config "ovs".toList "port_mappings".toList =
    some ([','].intercalate (mappings.map PortMapping.text))
  found : ∀ m ∈ mappings, config m.nic "address".toList = some (address m.nic).text
  indexed : config "ovs".toList "physical_port_policy".toList = some "indexed".toList

namespace Deployment

variable (d : Deployment)

def number (m : PortMapping) : Nat := (d.address m.nic).number

/-- How many of the NICs have a lower address. -/
def rank (m : PortMapping) : Nat := d.mappings.countP fun m' => d.number m' < d.number m

/-- The ports of the NICs, each under the rank of its address. -/
def inPciOrder : List AddPort :=
  d.mappings.map fun m => { bridge := m.bridge, port := dpdkPort (d.rank m) }

def sorted : List PortMapping := sortBy d.number d.mappings

end Deployment

/-! ## Texts -/

theorem PciAddress.number_injective {a b : PciAddress} (h : a.number = b.number) : a = b := by
  obtain ⟨domain, bus, device, function⟩ := a
  obtain ⟨domain', bus', device', function'⟩ := b
  simp only [number] at h
  simp only [PciAddress.mk.injEq, Fin.ext_iff]
  omega

theorem hexDigit_plain (n : Nat) : ∀ c ∈ Nat.toDigits 16 n, isBlank c = false ∧ c ≠ ',' := by
  induction n using Nat.strongRecOn with
  | _ n ih =>
    have hdigit : ∀ m < 16, isBlank m.digitChar = false ∧ m.digitChar ≠ ',' := by decide
    intro c hc
    by_cases hn : n < 16
    · rw [Nat.toDigits_of_lt_base hn, List.mem_singleton] at hc
      rw [hc]
      exact hdigit n hn
    · rw [Nat.toDigits_of_base_le (by decide) (by omega), List.mem_append,
        List.mem_singleton] at hc
      rcases hc with hc | rfl
      · exact ih (n / 16) (by omega) c hc
      · exact hdigit (n % 16) (Nat.mod_lt n (by decide))

theorem hex_plain (width n : Nat) : ∀ c ∈ hex width n, isBlank c = false ∧ c ≠ ',' := by
  intro c hc
  rw [hex, List.leftpad, List.mem_append] at hc
  rcases hc with hc | hc
  · rw [List.eq_of_mem_replicate hc]
    decide
  · exact hexDigit_plain n c hc

theorem PciAddress.text_plain (a : PciAddress) : ∀ c ∈ a.text, isBlank c = false ∧ c ≠ ',' := by
  intro c hc
  simp only [text, List.mem_append, List.mem_cons] at hc
  have hcolon : isBlank ':' = false ∧ ':' ≠ ',' := by decide
  have hdot : isBlank '.' = false ∧ '.' ≠ ',' := by decide
  rcases hc with ((hc | rfl | hc) | rfl | hc) | rfl | hc
  · exact hex_plain _ _ c hc
  · exact hcolon
  · exact hex_plain _ _ c hc
  · exact hcolon
  · exact hex_plain _ _ c hc
  · exact hdot
  · exact hex_plain _ _ c hc

theorem dpdkPort_injective {i j : Nat} (h : dpdkPort i = dpdkPort j) : i = j :=
  Int.ofNat.inj (PyNumber.decimal_injective (List.append_cancel_left h))

/-- A word made of two words and a character between them. -/
theorem whole_pair {x y : Word} {c : Char} (hx : ∀ d ∈ x, isBlank d = false)
    (hc : isBlank c = false) (hy : ∀ d ∈ y, isBlank d = false) : Whole (x ++ c :: y) where
  ne := by simp
  solid := by
    intro d hd
    rw [List.mem_append, List.mem_cons] at hd
    rcases hd with hd | rfl | hd
    · exact hx d hd
    · exact hc
    · exact hy d hd

/-! ## The loops -/

namespace Deployment

variable {d : Deployment}

theorem whole_text {m : PortMapping} (hm : m ∈ d.mappings) : Whole m.text :=
  whole_pair (d.plain m hm).1.solid rfl (d.plain m hm).2.solid

/-- The entries of `port_mappings`, one on each line. -/
theorem tr_mappings : tr ',' '\n' (getValue d.config "ovs".toList "port_mappings".toList) =
    ['\n'].intercalate (d.mappings.map PortMapping.text) := by
  rw [getValue, d.listed]
  refine tr_join ?_
  rintro w hw
  obtain ⟨m, hm, rfl⟩ := List.mem_map.mp hw
  have hnic := (d.plain m hm).1.separators.1
  have hbridge := (d.plain m hm).2.separators.1
  simp [PortMapping.text, hnic, hbridge]

theorem words_listDpdkNics : words (listDpdkNics d.config) = d.mappings.map PortMapping.nic := by
  have hwhole : ∀ w ∈ d.mappings.map PortMapping.nic, Whole w := by
    intro w hw
    obtain ⟨m, hm, rfl⟩ := List.mem_map.mp hw
    exact (d.plain m hm).1.toWhole
  have hfield : (d.mappings.map PortMapping.text).map (field ':' 0) =
      d.mappings.map PortMapping.nic := by
    rw [List.map_map]
    exact List.map_congr_left fun m hm => field_first (d.plain m hm).1.separators.2 m.bridge
  have hlines : ∀ l ∈ d.mappings.map PortMapping.text, '\n' ∉ l := by
    intro l hl
    obtain ⟨m, hm, rfl⟩ := List.mem_map.mp hl
    exact (whole_text hm).no_newline
  rw [listDpdkNics, tr_mappings, cut_join hlines, hfield, words_join rfl hwhole,
    words_lines hwhole]

theorem numbers_nodup : (d.mappings.map d.number).Nodup := by
  have hmap : d.mappings.map d.number =
      (d.mappings.map fun m => d.address m.nic).map PciAddress.number := by
    rw [List.map_map]
    rfl
  rw [hmap]
  exact d.distinct.map fun _ _ => PciAddress.number_injective

theorem eq_of_nic {m m' : PortMapping} (hm : m ∈ d.mappings) (hm' : m' ∈ d.mappings)
    (h : m.nic = m'.nic) : m = m' := by
  refine List.inj_on_of_nodup_map d.distinct hm hm' ?_
  rw [h]

theorem getPortBridge_eq {m : PortMapping} (hm : m ∈ d.mappings) :
    getPortBridge d.config m.nic = m.bridge := by
  have hwords : words (tr ',' '\n' (getValue d.config "ovs".toList "port_mappings".toList)) =
      d.mappings.map PortMapping.text := by
    rw [tr_mappings, words_join rfl]
    intro w hw
    obtain ⟨m, hm, rfl⟩ := List.mem_map.mp hw
    exact whole_text hm
  have hfirst : ∀ m' ∈ d.mappings, field ':' 0 m'.text = m'.nic :=
    fun m' hm' => field_first (d.plain m' hm').1.separators.2 m'.bridge
  have hfind : (d.mappings.map PortMapping.text).find? (fun pair => field ':' 0 pair = m.nic) =
      some m.text := by
    rw [List.find?_map]
    cases hfound : d.mappings.find? ((fun pair => decide (field ':' 0 pair = m.nic)) ∘
        PortMapping.text) with
    | none =>
      have hnone := List.find?_eq_none.mp hfound m hm
      simp [hfirst m hm] at hnone
    | some m' =>
      have hm' := List.mem_of_find?_eq_some hfound
      have hnic : field ':' 0 m'.text = m.nic := by simpa using List.find?_some hfound
      rw [hfirst m' hm'] at hnic
      rw [eq_of_nic hm' hm hnic]
      rfl
  rw [getPortBridge, hwords]
  simp only [hfind]
  exact field_second (d.plain m hm).1.separators.2 (d.plain m hm).2.separators.2

/-- The pair of a NIC. -/
def pair (d : Deployment) (m : PortMapping) : Word := (d.address m.nic).text ++ ',' :: m.nic

theorem whole_pairs : ∀ w ∈ d.mappings.map d.pair, Whole w := by
  intro w hw
  obtain ⟨m, hm, rfl⟩ := List.mem_map.mp hw
  exact whole_pair (fun c hc => (PciAddress.text_plain _ c hc).1) rfl (d.plain m hm).1.solid

/-- The words of what the first loop joins. -/
theorem words_joined : words ((d.mappings.map PortMapping.nic).foldl (joinPair d.config) []) =
    d.mappings.map d.pair := by
  have hfold : ∀ ms : List PortMapping, (∀ m ∈ ms, m ∈ d.mappings) →
      words ((ms.map PortMapping.nic).foldl (joinPair d.config) []) = ms.map d.pair := by
    intro ms hms
    induction ms using List.reverseRecOn with
    | nil => rfl
    | append_singleton ms m ih =>
      obtain ⟨hrest, hlast⟩ := List.forall_mem_append.mp hms
      have hm := hlast m List.mem_cons_self
      have hpair : getValue d.config m.nic "address".toList ++ ',' :: m.nic = d.pair m := by
        rw [getValue, d.found m hm]
        rfl
      have hword : words (d.pair m) = [d.pair m] :=
        words_whole (whole_pairs _ (List.mem_map_of_mem hm))
      have ih := ih hrest
      rw [List.map_append, List.map_append, List.foldl_append, List.map_singleton,
        List.foldl_cons, List.foldl_nil, joinPair, hpair]
      split
      · rename_i hnil
        rw [hnil] at ih
        rw [hword, ← ih]
        rfl
      · rw [words_append rfl, hword, ih]
        rfl
  exact hfold _ fun _ hm => hm

theorem addPort_pair {m : PortMapping} (hm : m ∈ d.mappings) (i : Nat) :
    addPort d.config (d.pair m) i = { bridge := m.bridge, port := dpdkPort i } := by
  have hnic : field ',' 1 (d.pair m) = m.nic :=
    field_second (fun hmem => (PciAddress.text_plain _ _ hmem).2 rfl)
      (d.plain m hm).1.separators.1
  have hpolicy : getValue d.config "ovs".toList "physical_port_policy".toList =
      "indexed".toList := by
    rw [getValue, d.indexed]
    rfl
  rw [addPort, hnic, getPortBridge_eq hm]
  exact if_pos hpolicy

/-- Ports on these bridges, numbered in this order. -/
def numbered (bridges : List Word) : List AddPort :=
  bridges.zipIdx.map fun (bridge, i) => { bridge, port := dpdkPort i }

/-- The ports are numbered as `port_mappings` lists them. -/
theorem initOvsInterfaces_eq (collate : Word → Word → Bool) :
    initOvsInterfaces collate d.config = numbered (d.mappings.map PortMapping.bridge) := by
  rw [initOvsInterfaces, words_listDpdkNics]
  simp only [words_joined, sort_echo collate whole_pairs, words_echo whole_pairs]
  rw [numbered, List.zipIdx_map, List.zipIdx_map, List.map_map, List.map_map]
  refine List.map_congr_left fun ⟨m, i⟩ hmem => ?_
  exact addPort_pair (List.mem_of_getElem? (List.mk_mem_zipIdx_iff_getElem?.mp hmem)) i

end Deployment

/-! ## The order -/

/-- In a sorted list the rank of an item is its place. -/
theorem zipIdx_rank {α : Type} {f : α → Nat} {l : List α}
    (h : l.Pairwise fun x y => f x < f y) :
    (l.map fun x => (x, l.countP fun y => f y < f x)) = l.zipIdx := by
  induction l using List.reverseRecOn with
  | nil => rfl
  | append_singleton l x ih =>
    obtain ⟨hl, -, hlast⟩ := List.pairwise_append.mp h
    have hbelow : ∀ y ∈ l, f y < f x := fun y hy => hlast y hy x List.mem_cons_self
    have hrank : ∀ y, (l ++ [x]).countP (fun z => f z < f y) =
        l.countP (fun z => f z < f y) + if f x < f y then 1 else 0 := by
      intro y
      rw [List.countP_append, List.countP_singleton]
      simp only [decide_eq_true_eq]
    rw [List.map_append, List.zipIdx_append, ← ih hl, List.map_singleton]
    congr 1
    · refine List.map_congr_left fun y hy => ?_
      rw [hrank, if_neg (Nat.not_lt.mpr (hbelow y hy).le)]
      rfl
    · have hall : l.countP (fun z => f z < f x) = l.length :=
        List.countP_eq_length.mpr fun y hy => decide_eq_true (hbelow y hy)
      rw [hrank, hall, if_neg (Nat.lt_irrefl _)]
      simp

namespace Deployment

variable {d : Deployment}

theorem sorted_pairwise : d.sorted.Pairwise fun m m' => d.number m < d.number m' := by
  have hnodup : (d.sorted.map d.number).Nodup :=
    ((sortBy_perm d.number d.mappings).map d.number).nodup_iff.mpr numbers_nodup
  have hne := List.pairwise_map.mp hnodup
  exact (hne.and (pairwise_sortBy d.number d.mappings)).imp fun h => lt_of_le_of_ne h.2 h.1

theorem inPciOrder_perm : (numbered (d.sorted.map PortMapping.bridge)).Perm d.inPciOrder := by
  have hperm : d.sorted.Perm d.mappings := sortBy_perm d.number d.mappings
  have hrank : ∀ m, d.rank m = d.sorted.countP fun m' => d.number m' < d.number m :=
    fun m => (hperm.countP_eq _).symm
  rw [numbered, List.zipIdx_map, List.map_map, ← zipIdx_rank sorted_pairwise, List.map_map,
    inPciOrder]
  simp only [hrank]
  exact hperm.map _

/-- The numbers tell the places of the bridges. -/
theorem numbered_perm {bs bs' : List Word} : (numbered bs).Perm (numbered bs') ↔ bs = bs' := by
  constructor
  · intro h
    refine List.ext_getElem? fun i => ?_
    have hmem : ∀ (cs : List Word) (b : Word),
        { bridge := b, port := dpdkPort i } ∈ numbered cs ↔ cs[i]? = some b := by
      intro cs b
      rw [numbered, List.mem_map]
      constructor
      · rintro ⟨⟨b', j⟩, hmem, heq⟩
        obtain ⟨rfl, hport⟩ := AddPort.mk.injEq .. ▸ heq
        rw [← dpdkPort_injective hport.1]
        exact List.mk_mem_zipIdx_iff_getElem?.mp hmem
      · intro hb
        exact ⟨(b, i), List.mk_mem_zipIdx_iff_getElem?.mpr hb, rfl⟩
    refine Option.ext fun b => ?_
    rw [← hmem bs b, ← hmem bs' b]
    exact h.mem_iff
  · rintro rfl
    exact List.Perm.refl _

/-- **The ports are numbered in PCI order** just when the bridges are listed so. -/
theorem numbered_iff (d : Deployment) (collate : Word → Word → Bool) :
    (initOvsInterfaces collate d.config).Perm d.inPciOrder ↔
      d.mappings.map PortMapping.bridge = d.sorted.map PortMapping.bridge := by
  rw [initOvsInterfaces_eq, ← numbered_perm]
  exact ⟨fun h => h.trans inPciOrder_perm.symm, fun h => h.trans inPciOrder_perm⟩

/-- Two NICs on two bridges, the one with the higher address first. -/
def descending : Deployment where
  mappings := [⟨"eth1".toList, "br1".toList⟩, ⟨"eth0".toList, "br0".toList⟩]
  address nic := if nic = "eth1".toList then ⟨0, 2, 0, 0⟩ else ⟨0, 1, 0, 0⟩
  config sect key :=
    if key = "port_mappings".toList then some "eth1:br1,eth0:br0".toList
    else if key = "physical_port_policy".toList then some "indexed".toList
    else if sect = "eth1".toList then some "0000:02:00.0".toList
    else some "0000:01:00.0".toList
  plain := by
    have hplain : ∀ n ∈ ["eth1", "br1", "eth0", "br0"], Plain n.toList := by
      have hword : ∀ n ∈ ["eth1", "br1", "eth0", "br0"], n.toList ≠ [] ∧
          (',' ∉ n.toList ∧ ':' ∉ n.toList) ∧ n.toList.head? ≠ some '-' := by decide
      have hchars : ∀ n ∈ ["eth1", "br1", "eth0", "br0"],
          (n.toList.all fun c => isBlank c = false ∧ c ∉ ['*', '?', '[', '\\']) = true := by decide
      intro n hn
      obtain ⟨hne, hseparators, hoption⟩ := hword n hn
      have hsolid : ∀ c ∈ n.toList, isBlank c = false ∧ c ∉ ['*', '?', '[', '\\'] :=
        fun c hc => of_decide_eq_true (List.all_eq_true.mp (hchars n hn) c hc)
      exact { ne := hne, solid := fun c hc => (hsolid c hc).1, separators := hseparators,
              pattern := fun c hc => (hsolid c hc).2, option := hoption }
    rintro m (_ | ⟨_, _ | ⟨_, ⟨⟩⟩⟩)
    · exact ⟨hplain "eth1" (by decide), hplain "br1" (by decide)⟩
    · exact ⟨hplain "eth0" (by decide), hplain "br0" (by decide)⟩
  distinct := by decide
  listed := by decide
  found := by decide
  indexed := by decide

/-- The ports change their bridges. -/
theorem descending_misnumbered :
    initOvsInterfaces (fun a b => decide (a ≤ b)) descending.config =
        [⟨"br1".toList, "dpdk0".toList, none⟩, ⟨"br0".toList, "dpdk1".toList, none⟩] ∧
      ¬ (initOvsInterfaces (fun a b => decide (a ≤ b)) descending.config).Perm
        descending.inPciOrder := by
  rw [initOvsInterfaces_eq]
  decide

end Deployment

end OvsDpdk
end KollaPowerOps
