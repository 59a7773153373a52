import KollaPowerOps.Lib.OrderedDict
import KollaPowerOps.Lib.PyValue
import Mathlib.Data.List.Pairwise

/-!
# HaproxyServices

The filter `extract_haproxy_services`, by which `loadbalancer-config` collects the HAProxy services
of a role.

* `Clash`          : some service has no `enabled`, or two enabled ones share a name.
* `extracts_union` : the filter raises just when there is a clash, and otherwise returns what the
  enabled services define, in whatever order they stand.
-/

namespace KollaPowerOps
namespace HaproxyServices

abbrev Text := List Char

/-- The one proof that every look-up of a text refers to. -/
scoped instance lawfulBEq_text : LawfulBEq Text := inferInstance

variable {V D : Type}

/-- What the filters read of a service. An attribute that is `None` counts as missing. -/
structure Service (V D : Type) where
  enabled : Option V := none
  containerName : Option Text := none
  haproxy : Option (OrderedDict Text D) := none

abbrev Services (V D : Type) := OrderedDict Text (Service V D)

structure FilterError where
  message : Text

def FilterError.noEnabled (service : Service V D) : FilterError :=
  ⟨"Service definition for '".toList ++ service.containerName.getD "<unknown>".toList ++
    "' does not have an 'enabled' attribute".toList⟩

def FilterError.notUnique : FilterError := ⟨"haproxy service names should be unique".toList⟩

def serviceEnabled (bool : V → Bool) (service : Service V D) : Except FilterError Bool :=
  match service.enabled with
  | none => .error (.noEnabled service)
  | some enabled => .ok (bool enabled)

/-- The body of the loop. -/
def addHaproxy (bool : V → Bool) (haproxy : OrderedDict Text D) (service : Service V D) :
    Except FilterError (OrderedDict Text D) := do
  if ← serviceEnabled bool service then
    match service.haproxy with
    | none => .ok haproxy
    | some serviceHaproxy =>
      if serviceHaproxy.keys = [] then
        .ok haproxy
      else if ∀ name ∈ haproxy.keys, name ∉ serviceHaproxy.keys then
        .ok (haproxy.update serviceHaproxy)
      else
        .error .notUnique
  else
    .ok haproxy

def extractHaproxyServices (bool : V → Bool) (services : Services V D) :
    Except FilterError (OrderedDict Text D) :=
  (services.entries.map Prod.snd).foldlM (addHaproxy bool) OrderedDict.empty

/-! ## What a service adds -/

def Service.Enabled (bool : V → Bool) (service : Service V D) : Prop :=
  ∃ v, service.enabled = some v ∧ bool v = true

/-- The definition of an HAProxy service. -/
def Service.definition? (service : Service V D) (name : Text) : Option D :=
  service.haproxy.bind fun haproxy => haproxy.get? name

/-- An enabled service defines a name. -/
def Service.Defines (bool : V → Bool) (service : Service V D) (name : Text) (d : D) : Prop :=
  service.Enabled bool ∧ service.definition? name = some d

/-- What the loop takes from a service. -/
def Service.part (bool : V → Bool) (service : Service V D) : OrderedDict Text D :=
  match service.enabled with
  | none => OrderedDict.empty
  | some v => if bool v then service.haproxy.getD OrderedDict.empty else OrderedDict.empty

def Apart (d d' : OrderedDict Text D) : Prop := ∀ name ∈ d.keys, name ∉ d'.keys

theorem Apart.symm {d d' : OrderedDict Text D} (h : Apart d d') : Apart d' d :=
  fun name hname' hname => h name hname hname'

theorem empty_apart (d : OrderedDict Text D) : Apart OrderedDict.empty d :=
  fun _ hname => nomatch hname

theorem update_empty (d : OrderedDict Text D) : d.update OrderedDict.empty = d := rfl

theorem get?_part (bool : V → Bool) (service : Service V D) (name : Text) (d : D) :
    (service.part bool).get? name = some d ↔ service.Defines bool name d := by
  rw [Service.part, Service.Defines, Service.Enabled, Service.definition?]
  cases service.enabled with
  | none => simp
  | some v =>
    cases hv : bool v with
    | false => simp [hv]
    | true => cases service.haproxy <;> simp [hv]

theorem mem_keys_part (bool : V → Bool) (service : Service V D) (name : Text) :
    name ∈ (service.part bool).keys ↔ ∃ d, service.Defines bool name d := by
  rw [OrderedDict.mem_keys]
  exact exists_congr fun d => get?_part bool service name d

/-! ## The loop -/

theorem addHaproxy_ok {bool : V → Bool} {haproxy haproxy' : OrderedDict Text D}
    {service : Service V D} :
    addHaproxy bool haproxy service = .ok haproxy' ↔
      service.enabled ≠ none ∧ Apart haproxy (service.part bool) ∧
        haproxy.update (service.part bool) = haproxy' := by
  have hempty : Apart haproxy OrderedDict.empty := (empty_apart haproxy).symm
  rw [addHaproxy, serviceEnabled, Service.part, pyBind_ok]
  cases service.enabled with
  | none => simp
  | some v =>
    simp only [Except.ok.injEq, exists_eq_left', ne_eq, reduceCtorEq, not_false_eq_true, true_and]
    cases bool v with
    | false => simp [hempty, update_empty]
    | true =>
      cases service.haproxy with
      | none => simp [hempty, update_empty]
      | some serviceHaproxy =>
        simp only [if_true, Option.getD_some]
        by_cases hkeys : serviceHaproxy.keys = []
        · have hnone : serviceHaproxy = OrderedDict.empty := by
            refine OrderedDict.ext_get? hkeys fun name => ?_
            exact OrderedDict.get?_eq_none.mpr (by simp [hkeys])
          simp [hnone, hempty, update_empty]
        · rw [if_neg hkeys]
          split
          · rename_i hapart
            have hapart : Apart haproxy serviceHaproxy := hapart
            rw [and_iff_right hapart, Except.ok.injEq]
          · rename_i hclash
            exact iff_of_false nofun fun h => hclash h.1

/-- A run gets to its end when each service has `enabled` and all that is taken lies apart. -/
theorem loop_ok {bool : V → Bool} {l : List (Service V D)} {haproxy haproxy' : OrderedDict Text D} :
    l.foldlM (addHaproxy bool) haproxy = .ok haproxy' ↔
      ((∀ service ∈ l, service.enabled ≠ none) ∧
        (haproxy :: l.map (Service.part bool)).Pairwise Apart) ∧
        (l.map (Service.part bool)).foldl OrderedDict.update haproxy = haproxy' := by
  induction l generalizing haproxy with
  | nil => simp [pure, Except.pure]
  | cons service l ih =>
    rw [List.foldlM_cons, pyBind_ok]
    have hkeys : ∀ d : OrderedDict Text D, Apart (haproxy.update (service.part bool)) d ↔
        Apart haproxy d ∧ Apart (service.part bool) d := by
      intro d
      simp only [Apart, OrderedDict.keys_update, OrderedDict.mem_firsts, List.mem_append, or_imp,
        forall_and]
    constructor
    · rintro ⟨next, hnext, hrest⟩
      obtain ⟨henabled, hapart, rfl⟩ := addHaproxy_ok.mp hnext
      obtain ⟨⟨hall, hpairs⟩, hresult⟩ := ih.mp hrest
      rw [List.pairwise_cons] at hpairs
      refine ⟨⟨List.forall_mem_cons.mpr ⟨henabled, hall⟩, ?_⟩, hresult⟩
      rw [List.map_cons, List.pairwise_cons, List.pairwise_cons, List.forall_mem_cons]
      exact ⟨⟨hapart, fun d hd => ((hkeys d).mp (hpairs.1 d hd)).1⟩,
        fun d hd => ((hkeys d).mp (hpairs.1 d hd)).2, hpairs.2⟩
    · rintro ⟨⟨hall, hpairs⟩, hresult⟩
      rw [List.map_cons, List.pairwise_cons, List.pairwise_cons, List.forall_mem_cons] at hpairs
      obtain ⟨⟨hapart, hothers⟩, hpart, hrest⟩ := hpairs
      rw [List.forall_mem_cons] at hall
      refine ⟨_, addHaproxy_ok.mpr ⟨hall.1, hapart, rfl⟩, ih.mpr ⟨⟨hall.2, ?_⟩, hresult⟩⟩
      rw [List.pairwise_cons]
      exact ⟨fun d hd => (hkeys d).mpr ⟨hothers d hd, hpart d hd⟩, hrest⟩

/-- What is taken from all of them. -/
theorem get?_updates {l : List (OrderedDict Text D)} {haproxy : OrderedDict Text D}
    (hl : (haproxy :: l).Pairwise Apart) (name : Text) (d : D) :
    (l.foldl OrderedDict.update haproxy).get? name = some d ↔
      ∃ part ∈ haproxy :: l, part.get? name = some d := by
  induction l generalizing haproxy with
  | nil => simp
  | cons part l ih =>
    rw [List.pairwise_cons, List.forall_mem_cons, List.pairwise_cons] at hl
    obtain ⟨⟨hapart, hothers⟩, hpart, hrest⟩ := hl
    have hnext : (haproxy.update part :: l).Pairwise Apart := by
      refine List.pairwise_cons.mpr ⟨fun d hd name hname => ?_, hrest⟩
      rw [OrderedDict.keys_update, OrderedDict.mem_firsts, List.mem_append] at hname
      exact hname.elim (hothers d hd name) (hpart d hd name)
    have hboth : (haproxy.update part).get? name = some d ↔
        haproxy.get? name = some d ∨ part.get? name = some d := by
      rw [OrderedDict.get?_update]
      cases hpart : part.get? name with
      | none => simp
      | some d' =>
        have hnone : haproxy.get? name = none := OrderedDict.get?_eq_none.mpr fun hname =>
          hapart name hname (OrderedDict.mem_keys.mpr ⟨d', hpart⟩)
        simp [hnone]
    rw [List.foldl_cons, ih hnext]
    simp only [List.mem_cons, exists_eq_or_imp, hboth, or_assoc]

/-! ## The filter -/

/-- Some service has no `enabled`, or two enabled ones define one name. -/
def Clash (bool : V → Bool) (services : Services V D) : Prop :=
  (∃ key service, services.get? key = some service ∧ service.enabled = none) ∨
    ∃ key service key' service', key ≠ key' ∧ services.get? key = some service ∧
      services.get? key' = some service' ∧
      ∃ name d d', service.Defines bool name d ∧ service'.Defines bool name d'

/-- Two runs raise both, or return the same mapping. -/
def SameOutcome : Except FilterError (OrderedDict Text D) →
    Except FilterError (OrderedDict Text D) → Prop
  | .ok haproxy, .ok haproxy' => ∀ name, haproxy.get? name = haproxy'.get? name
  | .error _, .error _ => True
  | _, _ => False

theorem get?_of_perm {K W : Type} [DecidableEq K] {d d' : OrderedDict K W}
    (h : d.entries.Perm d'.entries) (k : K) : d.get? k = d'.get? k :=
  Option.ext fun w => by rw [← OrderedDict.mem_entries, ← OrderedDict.mem_entries, h.mem_iff]

theorem not_clash_iff (bool : V → Bool) (services : Services V D) :
    ¬Clash bool services ↔ (∀ service ∈ services.entries.map Prod.snd, service.enabled ≠ none) ∧
      (services.entries.map fun e => e.2.part bool).Pairwise Apart := by
  have hnodup := services.nodup
  rw [Clash, not_or, List.forall_mem_map]
  refine and_congr ?_ ?_
  · constructor
    · exact fun h e he hnone => h ⟨e.1, e.2, OrderedDict.mem_entries.mp he, hnone⟩
    · rintro h ⟨key, service, hservice, hnone⟩
      exact h _ (OrderedDict.mem_entries.mpr hservice) hnone
  · rw [List.pairwise_map]
    rw [List.nodup_iff_pairwise_ne, List.pairwise_map] at hnodup
    constructor
    · intro h
      refine hnodup.imp_of_mem fun he he' hkey name hname hname' => ?_
      obtain ⟨d, hd⟩ := (mem_keys_part ..).mp hname
      obtain ⟨d', hd'⟩ := (mem_keys_part ..).mp hname'
      exact h ⟨_, _, _, _, hkey, OrderedDict.mem_entries.mp he, OrderedDict.mem_entries.mp he',
        name, d, d', hd, hd'⟩
    · rintro h ⟨key, service, key', service', hkey, hservice, hservice', name, d, d', hd, hd'⟩
      have : Std.Symm fun e e' : Text × Service V D =>
          Apart (e.2.part bool) (e'.2.part bool) := ⟨fun _ _ hapart => hapart.symm⟩
      have hapart := h.forall (OrderedDict.mem_entries.mpr hservice)
        (OrderedDict.mem_entries.mpr hservice') fun heq => hkey (congrArg Prod.fst heq)
      exact hapart name ((mem_keys_part ..).mpr ⟨d, hd⟩) ((mem_keys_part ..).mpr ⟨d', hd'⟩)

theorem extract_ok {bool : V → Bool} {services : Services V D} {haproxy : OrderedDict Text D} :
    extractHaproxyServices bool services = .ok haproxy ↔ ¬Clash bool services ∧
      (services.entries.map fun e => e.2.part bool).foldl OrderedDict.update OrderedDict.empty =
        haproxy := by
  rw [extractHaproxyServices, loop_ok, not_clash_iff, List.map_map, List.pairwise_cons]
  exact and_congr_left' (and_congr_right' (and_iff_right fun d _ => empty_apart d))

/-- What comes back has the definitions of the enabled services. -/
theorem get?_extracted {bool : V → Bool} {services : Services V D} {haproxy : OrderedDict Text D}
    (h : extractHaproxyServices bool services = .ok haproxy) (name : Text) (d : D) :
    haproxy.get? name = some d ↔
      ∃ key service, services.get? key = some service ∧ service.Defines bool name d := by
  obtain ⟨hclash, rfl⟩ := extract_ok.mp h
  have hpairs := ((not_clash_iff ..).mp hclash).2
  rw [get?_updates (List.pairwise_cons.mpr ⟨fun d _ => empty_apart d, hpairs⟩)]
  constructor
  · rintro ⟨part, hpart, hd⟩
    rcases List.mem_cons.mp hpart with rfl | hpart
    · cases hd
    · obtain ⟨e, he, rfl⟩ := List.mem_map.mp hpart
      exact ⟨e.1, e.2, OrderedDict.mem_entries.mp he, (get?_part ..).mp hd⟩
  · rintro ⟨key, service, hservice, hd⟩
    refine ⟨service.part bool, List.mem_cons_of_mem _ ?_, (get?_part ..).mpr hd⟩
    exact List.mem_map.mpr ⟨(key, service), OrderedDict.mem_entries.mpr hservice, rfl⟩

theorem raises_iff (bool : V → Bool) (services : Services V D) :
    (∃ e, extractHaproxyServices bool services = .error e) ↔ Clash bool services := by
  cases h : extractHaproxyServices bool services with
  | ok haproxy => exact iff_of_false nofun (extract_ok.mp h).1
  | error e =>
    refine iff_of_true ⟨e, rfl⟩ (not_not.mp fun hclash => ?_)
    rw [extract_ok.mpr ⟨hclash, rfl⟩] at h
    cases h

theorem clash_perm {bool : V → Bool} {services services' : Services V D}
    (h : services.entries.Perm services'.entries) :
    Clash bool services ↔ Clash bool services' := by
  simp only [Clash, get?_of_perm h]

/-- `extract_haproxy_services` is the disjoint union of what the enabled services define. -/
theorem extracts_union (bool : V → Bool) (services : Services V D) :
    ((∃ e, extractHaproxyServices bool services = .error e) ↔ Clash bool services) ∧
    (∀ haproxy, extractHaproxyServices bool services = .ok haproxy → ∀ name d,
      haproxy.get? name = some d ↔
        ∃ key service, services.get? key = some service ∧ service.Defines bool name d) ∧
    ∀ services' : Services V D, services.entries.Perm services'.entries →
      SameOutcome (extractHaproxyServices bool services)
        (extractHaproxyServices bool services') := by
  refine ⟨raises_iff bool services, fun haproxy h => get?_extracted h, fun services' hperm => ?_⟩
  have hraises := (raises_iff bool services).trans
    ((clash_perm hperm).trans (raises_iff bool services').symm)
  cases h : extractHaproxyServices bool services with
  | ok haproxy =>
    cases h' : extractHaproxyServices bool services' with
    | ok haproxy' =>
      intro name
      refine Option.ext fun d => ?_
      simp only [get?_extracted h, get?_extracted h', get?_of_perm hperm]
    | error e => exact absurd (hraises.mpr ⟨e, h'⟩) (by simp [h])
  | error e =>
    cases h' : extractHaproxyServices bool services' with
    | ok haproxy' => exact absurd (hraises.mp ⟨e, h⟩) (by simp [h'])
    | error e' => trivial

end HaproxyServices
end KollaPowerOps
