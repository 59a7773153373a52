import KollaPowerOps.HaproxyServices

/-!
# NovaFilters.Namespacing

The filter `namespace_haproxy_for_cell`, which keeps the load balancer's configuration of several
cells apart.

* `namespaceHaproxyForCell` : the filter.
* `Family.Separate`         : what it is there for.
* `separate_iff`            : when it gets there. The separator may stand in names and in cell names,
  so that a name of one cell can prolong a name of another one.
-/

namespace KollaPowerOps
namespace NovaFilters

open HaproxyServices

variable {V D : Type}

def namespaceName (cellName name : Text) : Text :=
  if cellName = [] then name else name ++ '_' :: cellName

/-- The body of the loop over the services. -/
def namespaceService (cellName : Text) (service : Service V D) : Service V D :=
  match service.haproxy with
  | none => service
  | some haproxy =>
    if haproxy.keys = [] then service
    else { service with haproxy := some (haproxy.mapKeys (namespaceName cellName)) }

def namespaceHaproxyForCell (services : Services V D) (cellName : Text) : Services V D :=
  (services.mapKeys (namespaceName cellName)).mapValues (namespaceService cellName)

/-! ## Families of cells -/

def haproxyKeys (service : Service V D) : List Text :=
  match service.haproxy with
  | none => []
  | some haproxy => haproxy.keys

def haproxyNames (services : Services V D) : List Text :=
  services.entries.flatMap fun e => haproxyKeys e.2

structure CellServices (V D : Type) where
  services : Services V D
  cellName : Text

def CellServices.namespaced (p : CellServices V D) : Services V D :=
  namespaceHaproxyForCell p.services p.cellName

structure Family (V D : Type) where
  cells : List (CellServices V D)
  distinct : (cells.map CellServices.cellName).Nodup

/-- Distinct names stay distinct, and what stands under a name is found under the new one. -/
structure Kept (services services' : Services V D) (rename : Text → Text) : Prop where
  injective : rename.Injective
  keys : services'.keys = services.keys.map rename
  service : ∀ n s, services.get? n = some s → ∃ s', services'.get? (rename n) = some s' ∧
    s'.enabled = s.enabled ∧ s'.containerName = s.containerName ∧
    haproxyKeys s' = (haproxyKeys s).map rename ∧
    ∀ m, s'.definition? (rename m) = s.definition? m

def NoneShared (l l' : List Text) : Prop := ∀ n ∈ l, n ∉ l'

structure Family.Separate (family : Family V D) : Prop where
  services : family.cells.Pairwise fun p q => NoneShared p.namespaced.keys q.namespaced.keys
  haproxy : family.cells.Pairwise fun p q =>
    NoneShared (haproxyNames p.namespaced) (haproxyNames q.namespaced)
  kept : ∀ p ∈ family.cells, Kept p.services p.namespaced (namespaceName p.cellName)

/-- `m` is `n_w`, and `w` in the cell `d` makes the cell name `c`. -/
def Prolongs (n c m d : Text) : Prop := ∃ w, m = n ++ '_' :: w ∧ c = namespaceName d w

def NoneProlonged (l : List Text) (c : Text) (l' : List Text) (d : Text) : Prop :=
  ∀ n ∈ l, ∀ m ∈ l', ¬Prolongs n c m d ∧ ¬Prolongs m d n c

structure Family.Unprolonged (family : Family V D) : Prop where
  services : family.cells.Pairwise fun p q =>
    NoneProlonged p.services.keys p.cellName q.services.keys q.cellName
  haproxy : family.cells.Pairwise fun p q =>
    NoneProlonged (haproxyNames p.services) p.cellName (haproxyNames q.services) q.cellName

/-! ## Names -/

theorem namespaceName_injective (c : Text) : (namespaceName c).Injective := by
  intro n m h
  rw [namespaceName, namespaceName] at h
  split at h
  · exact h
  · exact List.append_cancel_right h

theorem namespaceName_of_prolongs {n c m d : Text} (hcells : c ≠ d) (h : Prolongs n c m d) :
    namespaceName c n = namespaceName d m := by
  obtain ⟨w, rfl, rfl⟩ := h
  unfold namespaceName at *
  by_cases hd : d = []
  · by_cases hw : w = []
    · simp [hd, hw] at hcells
    · simp [hd, hw]
  · simp [hd]

/-- Two names meet where one takes up a part of the other's cell name. -/
theorem namespaceName_eq_iff {n c m d : Text} (hcells : c ≠ d) :
    namespaceName c n = namespaceName d m ↔ Prolongs n c m d ∨ Prolongs m d n c := by
  constructor
  · intro h
    by_cases hc : c = []
    · have hd : d ≠ [] := fun hd => hcells (hc.trans hd.symm)
      rw [namespaceName, if_pos hc, namespaceName, if_neg hd] at h
      exact .inr ⟨d, h, by rw [hc, namespaceName, if_pos rfl]⟩
    · by_cases hd : d = []
      · rw [namespaceName, if_neg hc, namespaceName, if_pos hd] at h
        exact .inl ⟨c, h.symm, by rw [hd, namespaceName, if_pos rfl]⟩
      · rw [namespaceName, if_neg hc, namespaceName, if_neg hd, List.append_eq_append_iff] at h
        -- what one name has more than the other begins with the separator
        have hcut : ∀ {w c d : Text}, c ≠ d → d ≠ [] → '_' :: c = w ++ '_' :: d →
            ∃ w', w = '_' :: w' ∧ c = namespaceName d w' := by
          intro w c d hcells hd hw
          cases w with
          | nil => exact absurd (List.cons.inj hw).2 hcells
          | cons a w =>
            obtain ⟨rfl, htail⟩ := List.cons.inj hw
            exact ⟨w, rfl, by rw [namespaceName, if_neg hd]; exact htail⟩
        rcases h with ⟨w, hm, hw⟩ | ⟨w, hn, hw⟩
        · obtain ⟨w', rfl, hw'⟩ := hcut hcells hd hw
          exact .inl ⟨w', hm, hw'⟩
        · obtain ⟨w', rfl, hw'⟩ := hcut hcells.symm hc hw
          exact .inr ⟨w', hn, hw'⟩
  · rintro (h | h)
    · exact namespaceName_of_prolongs hcells h
    · exact (namespaceName_of_prolongs hcells.symm h).symm

theorem noneShared_iff {l l' : List Text} {c d : Text} (hcells : c ≠ d) :
    NoneShared (l.map (namespaceName c)) (l'.map (namespaceName d)) ↔ NoneProlonged l c l' d := by
  simp only [NoneShared, NoneProlonged, List.forall_mem_map, ← not_or,
    ← namespaceName_eq_iff hcells]
  refine forall₂_congr fun n _ => ?_
  rw [List.mem_map, not_exists]
  exact forall_congr' fun m => not_and.trans (imp_congr_right fun _ => not_congr eq_comm)

/-! ## The filter -/

theorem haproxyKeys_namespaceService (c : Text) (service : Service V D) :
    haproxyKeys (namespaceService c service) = (haproxyKeys service).map (namespaceName c) := by
  rw [namespaceService]
  cases h : service.haproxy with
  | none => simp [haproxyKeys, h]
  | some haproxy =>
    dsimp only
    split
    · simp [haproxyKeys, *]
    · simp [haproxyKeys, h, OrderedDict.keys_mapKeys (namespaceName_injective c)]

theorem definition?_namespaceService (c : Text) (service : Service V D) (m : Text) :
    (namespaceService c service).definition? (namespaceName c m) = service.definition? m := by
  rw [namespaceService]
  cases h : service.haproxy with
  | none => simp [Service.definition?, h]
  | some haproxy =>
    dsimp only
    split
    · have hnone : ∀ name, haproxy.get? name = none := fun name =>
        OrderedDict.get?_eq_none.mpr (by simp [*])
      simp [Service.definition?, h, hnone]
    · simp [Service.definition?, h, OrderedDict.get?_mapKeys (namespaceName_injective c)]

theorem namespaceService_rest (c : Text) (service : Service V D) :
    (namespaceService c service).enabled = service.enabled ∧
      (namespaceService c service).containerName = service.containerName := by
  rw [namespaceService]
  split
  · exact ⟨rfl, rfl⟩
  · split <;> exact ⟨rfl, rfl⟩

theorem keys_namespaceHaproxyForCell (services : Services V D) (c : Text) :
    (namespaceHaproxyForCell services c).keys = services.keys.map (namespaceName c) := by
  rw [namespaceHaproxyForCell, OrderedDict.keys_mapValues,
    OrderedDict.keys_mapKeys (namespaceName_injective c)]

theorem get?_namespaceHaproxyForCell (services : Services V D) (c n : Text) :
    (namespaceHaproxyForCell services c).get? (namespaceName c n) =
      (services.get? n).map (namespaceService c) := by
  rw [namespaceHaproxyForCell, OrderedDict.get?_mapValues,
    OrderedDict.get?_mapKeys (namespaceName_injective c)]

theorem kept (services : Services V D) (c : Text) :
    Kept services (namespaceHaproxyForCell services c) (namespaceName c) where
  injective := namespaceName_injective c
  keys := keys_namespaceHaproxyForCell services c
  service n s hs := by
    refine ⟨namespaceService c s, ?_, (namespaceService_rest c s).1, (namespaceService_rest c s).2,
      haproxyKeys_namespaceService c s, definition?_namespaceService c s⟩
    rw [get?_namespaceHaproxyForCell, hs, Option.map_some]

theorem mem_haproxyNames {services : Services V D} {n : Text} :
    n ∈ haproxyNames services ↔ ∃ key s, services.get? key = some s ∧ n ∈ haproxyKeys s := by
  simp only [haproxyNames, List.mem_flatMap, Prod.exists, OrderedDict.mem_entries]

theorem mem_haproxyNames_namespaced {services : Services V D} {c n : Text} :
    n ∈ haproxyNames (namespaceHaproxyForCell services c) ↔
      n ∈ (haproxyNames services).map (namespaceName c) := by
  rw [mem_haproxyNames, List.mem_map]
  constructor
  · rintro ⟨key, s, hs, hn⟩
    have hkey := OrderedDict.mem_keys.mpr ⟨s, hs⟩
    rw [keys_namespaceHaproxyForCell, List.mem_map] at hkey
    obtain ⟨key, hkey, rfl⟩ := hkey
    rw [get?_namespaceHaproxyForCell, Option.map_eq_some_iff] at hs
    obtain ⟨s, hs, rfl⟩ := hs
    rw [haproxyKeys_namespaceService, List.mem_map] at hn
    obtain ⟨m, hm, rfl⟩ := hn
    exact ⟨m, mem_haproxyNames.mpr ⟨key, s, hs, hm⟩, rfl⟩
  · rintro ⟨m, hm, rfl⟩
    obtain ⟨key, s, hs, hm⟩ := mem_haproxyNames.mp hm
    refine ⟨namespaceName c key, namespaceService c s, ?_, ?_⟩
    · rw [get?_namespaceHaproxyForCell, hs, Option.map_some]
    · rw [haproxyKeys_namespaceService]
      exact List.mem_map_of_mem hm

/-! ## Cells stay apart -/

theorem pairwise_congr {α : Type} {P R S : α → α → Prop} {l : List α} (hP : l.Pairwise P)
    (h : ∀ a b, P a b → (R a b ↔ S a b)) : l.Pairwise R ↔ l.Pairwise S := by
  constructor
  · intro hR
    exact (hP.and hR).imp fun hab => (h _ _ hab.1).mp hab.2
  · intro hS
    exact (hP.and hS).imp fun hab => (h _ _ hab.1).mpr hab.2

/-- The filter keeps the cells of a family apart just when no name of one prolongs a name of
another one in the way of their cell names. -/
theorem separate_iff (family : Family V D) : family.Separate ↔ family.Unprolonged := by
  have hcells : family.cells.Pairwise fun p q => p.cellName ≠ q.cellName :=
    List.pairwise_map.mp family.distinct
  have hservices := pairwise_congr hcells
    (R := fun p q => NoneShared p.namespaced.keys q.namespaced.keys)
    (S := fun p q => NoneProlonged p.services.keys p.cellName q.services.keys q.cellName)
    fun p q hne => by
      rw [CellServices.namespaced, CellServices.namespaced, keys_namespaceHaproxyForCell,
        keys_namespaceHaproxyForCell]
      exact noneShared_iff hne
  have hhaproxy := pairwise_congr hcells
    (R := fun p q => NoneShared (haproxyNames p.namespaced) (haproxyNames q.namespaced))
    (S := fun p q =>
      NoneProlonged (haproxyNames p.services) p.cellName (haproxyNames q.services) q.cellName)
    fun p q hne => by
      rw [← noneShared_iff hne]
      simp only [NoneShared, CellServices.namespaced, mem_haproxyNames_namespaced]
  constructor
  · rintro ⟨hs, hh, -⟩
    exact ⟨hservices.mp hs, hhaproxy.mp hh⟩
  · rintro ⟨hs, hh⟩
    exact ⟨hservices.mpr hs, hhaproxy.mpr hh, fun p _ => kept p.services p.cellName⟩

/-- What the role passes for the console proxy. -/
def novncproxy : Services Bool Nat where
  entries := [("nova-novncproxy".toList, {
    enabled := some true
    haproxy := some ⟨[("nova_novncproxy".toList, 6080),
      ("nova_novncproxy_external".toList, 6081)], by decide⟩ })]
  nodup := by decide

/-- A cell `external` next to the cell without a name. -/
def externalCell : Family Bool Nat where
  cells := [⟨novncproxy, []⟩, ⟨novncproxy, "external".toList⟩]
  distinct := by decide

theorem external_cell_collides : ¬externalCell.Separate := by
  intro h
  have hpair := List.rel_of_pairwise_cons h.haproxy List.mem_cons_self
  exact hpair "nova_novncproxy_external".toList (by decide) (by decide)

end NovaFilters
end KollaPowerOps
