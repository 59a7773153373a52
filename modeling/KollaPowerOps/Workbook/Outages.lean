import Mathlib.Data.List.Forall2
import Mathlib.Data.List.Nodup
import KollaPowerOps.Lib.RelyGuarantee
import KollaPowerOps.Workbook.Cloud
import KollaPowerOps.Workbook.Interleaving

/-!
# Workbook.Outages

Planned workflows on different hosts, over one Nova and one Masakari, call by call in any order. The
state of a Nova service is Nova's own matter: it changes at any time.

* `Cloud.Within`     : only what belongs to some hosts differs.
* `Cloud.setNova`, `Cloud.setMaintenance`, `Planned.outcome` : what a workflow is for.
* `Aimed`            : a call that writes only to what belongs to a host.
* `outagesGuarantee` : the calls of one execution keep what the executions on other hosts rely on.
* `outages_independent` : each workflow that succeeds has its outcome, whatever the others do.
-/

namespace KollaPowerOps
namespace Workbook

open Effect TaskGraph Actions

/-! ## Lists, element by element -/

section Pointwise

open List

variable {α β : Type} {R : α → α → Prop} {l l' l'' : List α}

theorem forall₂_trans (hR : ∀ a b c, R a b → R b c → R a c) (h : Forall₂ R l l')
    (h' : Forall₂ R l' l'') : Forall₂ R l l'' := by
  induction h generalizing l'' with
  | nil => exact h'
  | cons hab _ ih =>
    obtain ⟨c, l₃, hbc, hrest, rfl⟩ := forall₂_cons_left_iff.mp h'
    exact .cons (hR _ _ _ hab hbc) (ih hrest)

theorem forall₂_exists {a : α} (h : Forall₂ R l l') (ha : a ∈ l) : ∃ b ∈ l', R a b := by
  induction h with
  | nil => cases ha
  | @cons a' b _ l₂ hab _ ih =>
    rcases List.mem_cons.mp ha with rfl | ha
    · exact ⟨b, List.mem_cons_self, hab⟩
    · obtain ⟨c, hc, hac⟩ := ih ha
      exact ⟨c, List.mem_cons_of_mem b hc, hac⟩

theorem forall₂_map_eq {f : α → β} (h : Forall₂ R l l') (hf : ∀ a b, R a b → f b = f a) :
    l'.map f = l.map f := by
  induction h with
  | nil => rfl
  | cons hab _ ih => rw [List.map_cons, List.map_cons, hf _ _ hab, ih]

theorem forall₂_filter_eq {p : α → Bool} (h : Forall₂ R l l') (hp : ∀ a b, R a b → p b = p a)
    (heq : ∀ a b, R a b → p a = true → b = a) : l'.filter p = l.filter p := by
  induction h with
  | nil => rfl
  | @cons a b _ _ hab _ ih =>
    cases ha : p a with
    | true =>
      obtain rfl := heq a b hab ha
      rw [List.filter_cons_of_pos ha, List.filter_cons_of_pos ha, ih]
    | false =>
      have hb : p b = false := (hp a b hab).trans ha
      simp [ha, hb, ih]

end Pointwise

/-! ## What belongs to a host -/

namespace Cloud

variable {H H' : String → Prop} {w w' w'' u : Cloud} {host : String}

/-- The service keeps its status, unless it is the one of a host with `H`. -/
structure SameService (H : String → Prop) (s s' : NovaService) : Prop where
  id : s'.id = s.id
  host : s'.host = s.host
  binary : s'.binary = s.binary
  status : (∀ host, H host → isComputeOf host s = false) → s'.status = s.status

structure SameHost (H : String → Prop) (i i' : MasakariHost) : Prop where
  id : i'.id = i.id
  name : i'.name = i.name
  flag : (∀ host, H host → i.name ≠ some host) → i'.onMaintenance = i.onMaintenance

/-- Only what belongs to hosts with `H` differs, and the states of the services. -/
structure Within (H : String → Prop) (w w' : Cloud) : Prop where
  services : List.Forall₂ (SameService H) w.services w'.services
  segments : w'.segments = w.segments
  hosts : ∀ segment ∈ w.segments, List.Forall₂ (SameHost H) (w.hosts segment) (w'.hosts segment)

theorem SameService.refl (s : NovaService) : SameService H s s := ⟨rfl, rfl, rfl, fun _ => rfl⟩

theorem SameService.compute {s s' : NovaService} (h : SameService H s s') (host : String) :
    isComputeOf host s' = isComputeOf host s := by
  unfold isComputeOf
  rw [h.host, h.binary]

theorem SameService.trans (s s' s'' : NovaService) (h : SameService H s s')
    (h' : SameService H s' s'') : SameService H s s'' := by
  refine ⟨h'.id.trans h.id, h'.host.trans h.host, h'.binary.trans h.binary, fun hs => ?_⟩
  have hs' : ∀ host, H host → isComputeOf host s' = false :=
    fun host hhost => (h.compute host).trans (hs host hhost)
  exact (h'.status hs').trans (h.status hs)

theorem SameHost.refl (i : MasakariHost) : SameHost H i i := ⟨rfl, rfl, fun _ => rfl⟩

theorem SameHost.trans (i i' i'' : MasakariHost) (h : SameHost H i i') (h' : SameHost H i' i'') :
    SameHost H i i'' := by
  refine ⟨h'.id.trans h.id, h'.name.trans h.name, fun hi => ?_⟩
  have hi' : ∀ host, H host → i'.name ≠ some host := by
    intro host hhost
    rw [h.name]
    exact hi host hhost
  exact (h'.flag hi').trans (h.flag hi)

theorem Within.refl (w : Cloud) : w.Within H w :=
  ⟨List.forall₂_same.mpr fun s _ => .refl s, rfl,
    fun _ _ => List.forall₂_same.mpr fun i _ => .refl i⟩

theorem Within.trans (h : w.Within H w') (h' : w'.Within H w'') : w.Within H w'' := by
  refine ⟨forall₂_trans SameService.trans h.services h'.services, h'.segments.trans h.segments, ?_⟩
  intro segment hsegment
  have hsegment' : segment ∈ w'.segments := h.segments ▸ hsegment
  exact forall₂_trans SameHost.trans (h.hosts segment hsegment) (h'.hosts segment hsegment')

theorem Within.mono (h : w.Within H w') (hH : ∀ host, H host → H' host) : w.Within H' w' := by
  refine ⟨h.services.imp fun s s' hs => ?_, h.segments, fun segment hsegment => ?_⟩
  · exact ⟨hs.id, hs.host, hs.binary, fun hs' => hs.status fun host hhost => hs' host (hH host hhost)⟩
  · refine (h.hosts segment hsegment).imp fun i i' hi => ?_
    exact ⟨hi.id, hi.name, fun hi' => hi.flag fun host hhost => hi' host (hH host hhost)⟩

/-- Ids are unique. -/
structure Sound (w : Cloud) : Prop where
  services : (w.services.map NovaService.id).Nodup
  hosts : ∀ segment ∈ w.segments, ((w.hosts segment).map MasakariHost.id).Nodup

theorem Within.sound (h : w.Within H w') (hw : w.Sound) : w'.Sound := by
  constructor
  · rw [forall₂_map_eq h.services fun _ _ hs => hs.id]
    exact hw.services
  · intro segment hsegment
    rw [h.segments] at hsegment
    rw [forall₂_map_eq (h.hosts segment hsegment) fun _ _ hi => hi.id]
    exact hw.hosts segment hsegment

/-- The Masakari hosts of a name stay as they are where only other hosts differ. -/
theorem Within.masakariOf (h : w.Within (· ≠ host) u) : u.masakariOf host = w.masakariOf host := by
  unfold Cloud.masakariOf
  rw [h.segments]
  refine List.flatMap_congr fun segment hsegment => ?_
  rw [forall₂_filter_eq (h.hosts segment hsegment)]
  · intro i i' hi
    rw [hi.name]
  · intro i i' hi hname
    have hname : i.name = some host := by simpa using hname
    have hflag : i'.onMaintenance = i.onMaintenance := by
      refine hi.flag fun other hother hsame => hother ?_
      rw [hname] at hsame
      exact (Option.some.inj hsame).symm
    have hid := hi.id
    have hsame := hi.name
    cases i
    cases i'
    cases hid
    cases hsame
    cases hflag
    rfl

/-! ## What a workflow is for -/

/-- The Nova service of the host is enabled or disabled. -/
def setNova (host : String) (on : Bool) (w : Cloud) : Cloud :=
  { w with
    services := w.services.map fun s =>
      if isComputeOf host s then { s with status := some (statusOf on) } else s }

/-- The host is put on maintenance or taken off it. -/
def setMaintenance (host : String) (on : Bool) (w : Cloud) : Cloud :=
  { w with
    hosts := fun segment => (w.hosts segment).map fun i =>
      if i.name = some host ∧ i.maintained ≠ on then { i with onMaintenance := some on } else i }

theorem Within.setNova (h : w.Within H u) (on : Bool) :
    (w.setNova host on).Within H (u.setNova host on) := by
  refine ⟨?_, h.segments, h.hosts⟩
  refine List.forall₂_map_left_iff.mpr (List.forall₂_map_right_iff.mpr ?_)
  refine h.services.imp fun s s' hs => ?_
  rw [hs.compute host]
  split
  · exact ⟨hs.id, hs.host, hs.binary, fun _ => rfl⟩
  · exact hs

theorem Within.setMaintenance (h : w.Within (· ≠ host) u) (on : Bool) :
    (w.setMaintenance host on).Within (· ≠ host) (u.setMaintenance host on) := by
  refine ⟨h.services, h.segments, fun segment hsegment => ?_⟩
  refine List.forall₂_map_left_iff.mpr (List.forall₂_map_right_iff.mpr ?_)
  refine (h.hosts segment hsegment).imp fun i i' hi => ?_
  by_cases hname : i.name = some host
  · have hflag : i'.onMaintenance = i.onMaintenance := by
      refine hi.flag fun other hother hsame => hother ?_
      exact Option.some.inj (hsame.symm.trans hname)
    have hmaintained : i'.maintained = i.maintained := congrArg (·.getD false) hflag
    simp only [hi.name, hname, hmaintained, true_and]
    split
    · exact ⟨hi.id, rfl, fun _ => rfl⟩
    · exact ⟨hi.id, hi.name, fun _ => hflag⟩
  · simp only [hi.name, hname, false_and, if_false]
    exact hi

/-- Setting a host writes to what belongs to it. -/
theorem within_setNova (w : Cloud) (host : String) (on : Bool) :
    w.Within (· = host) (w.setNova host on) := by
  refine ⟨List.forall₂_map_right_iff.mpr (List.forall₂_same.mpr fun s _ => ?_), rfl,
    (Within.refl w).hosts⟩
  split
  · rename_i hs
    refine ⟨rfl, rfl, rfl, fun hno => ?_⟩
    rw [hno host rfl] at hs
    cases hs
  · exact .refl s

theorem within_setMaintenance (w : Cloud) (host : String) (on : Bool) :
    w.Within (· = host) (w.setMaintenance host on) := by
  refine ⟨(Within.refl w).services, rfl, fun segment _ => ?_⟩
  refine List.forall₂_map_right_iff.mpr (List.forall₂_same.mpr fun i _ => ?_)
  split
  · rename_i hi
    exact ⟨rfl, rfl, fun hno => absurd hi.1 (hno host rfl)⟩
  · exact .refl i

/-- The one Nova service of the host is there with its status where only other hosts differ. -/
theorem Within.novaOf (h : w.Within (· ≠ host) u) {service : NovaService}
    (hone : w.novaOf host = [service]) : ∃ s, u.novaOf host = [s] ∧ s.id = service.id := by
  have hfilter : List.Forall₂ (SameService (· ≠ host)) (w.novaOf host) (u.novaOf host) :=
    List.rel_filter (fun _ _ hs => Bool.eq_iff_iff.mp (hs.compute host).symm) h.services
  rw [hone] at hfilter
  obtain ⟨s, l, hs, hl, heq⟩ := List.forall₂_cons_left_iff.mp hfilter
  rw [List.forall₂_nil_left_iff.mp hl] at heq
  exact ⟨s, heq, hs.id⟩

theorem mem_masakariOf {x : Segment × MasakariHost} :
    x ∈ w.masakariOf host ↔ x.1 ∈ w.segments ∧ x.2 ∈ w.hosts x.1 ∧ x.2.name = some host := by
  obtain ⟨segment, item⟩ := x
  simp [Cloud.masakariOf]

/-- What an update of the one Nova service of the host writes. -/
theorem setNova_services (hw : w.Sound) {service : NovaService} {s₀ : NovaService}
    (hone : w.novaOf host = [s₀]) (hid : s₀.id = service.id) (on : Bool) :
    w.services.map (withStatus service (statusOf on)) = (w.setNova host on).services := by
  have hmem : s₀ ∈ w.novaOf host := hone ▸ List.mem_singleton.mpr rfl
  obtain ⟨hs₀, hcompute⟩ := List.mem_filter.mp hmem
  refine List.map_congr_left fun s hs => ?_
  have hiff : s.id = service.id ↔ isComputeOf host s = true := by
    constructor
    · intro h
      rw [List.inj_on_of_nodup_map hw.services hs hs₀ (h.trans hid.symm)]
      exact hcompute
    · intro h
      have hs' : s ∈ w.novaOf host := List.mem_filter.mpr ⟨hs, h⟩
      rw [hone] at hs'
      rw [List.mem_singleton.mp hs', hid]
  simp only [withStatus, hiff]

theorem setNova_same {service : NovaService} (hone : w.novaOf host = [service]) {on : Bool}
    (hstatus : service.status = some (statusOf on)) : w.setNova host on = w := by
  have hsame : (w.setNova host on).services = w.services := by
    refine (List.map_congr_left fun s hs => ?_).trans (List.map_id _)
    split
    · rename_i hcompute
      have hs' : s ∈ w.novaOf host := List.mem_filter.mpr ⟨hs, hcompute⟩
      rw [hone] at hs'
      rw [← hstatus, ← List.mem_singleton.mp hs']
      rfl
    · rfl
  exact congrArg (fun services => { w with services }) hsame

/-- What an update of the one Masakari host of the name writes. -/
theorem setMaintenance_update (hw : w.Sound) {segment : Segment} {item : MasakariHost}
    (hone : w.masakariOf host = [(segment, item)]) {on : Bool} (hneed : item.maintained ≠ on) :
    (w.setMaintenance host on).Within H (w.effect (.updateHost item segment on)) := by
  have hmem : (segment, item) ∈ w.masakariOf host := hone ▸ List.mem_singleton.mpr rfl
  obtain ⟨_, hitem, hname⟩ := mem_masakariOf.mp hmem
  refine ⟨(Within.refl w).services, rfl, fun seg hseg => ?_⟩
  have hsame : (w.effect (.updateHost item segment on)).hosts seg =
      (w.setMaintenance host on).hosts seg := by
    have hwrite : ∀ i ∈ w.hosts seg, i.name = some host ∧ i.maintained ≠ on ↔
        seg = segment ∧ i.id = item.id := by
      intro i hi
      constructor
      · rintro ⟨hi', _⟩
        have hfound : (seg, i) ∈ w.masakariOf host := mem_masakariOf.mpr ⟨hseg, hi, hi'⟩
        rw [hone] at hfound
        cases List.mem_singleton.mp hfound
        exact ⟨rfl, rfl⟩
      · rintro ⟨rfl, hid⟩
        rw [List.inj_on_of_nodup_map (hw.hosts seg hseg) hi hitem hid]
        exact ⟨hname, hneed⟩
    by_cases hsegment : seg = segment
    · have hupdate : (w.effect (.updateHost item segment on)).hosts seg =
          (w.hosts seg).map (withMaintenance item on) := by
        rw [hsegment]
        exact Function.update_self _ _ _
      rw [hupdate]
      refine List.map_congr_left fun i hi => ?_
      simp only [withMaintenance, hwrite i hi, hsegment, true_and]
    · have hupdate : (w.effect (.updateHost item segment on)).hosts seg = w.hosts seg :=
        Function.update_of_ne hsegment _ _
      rw [hupdate]
      refine ((List.map_congr_left fun i hi => ?_).trans (List.map_id _)).symm
      simp only [hwrite i hi, hsegment, false_and, if_false, id_eq]
  rw [hsame]
  exact List.forall₂_same.mpr fun i _ => .refl i

theorem setMaintenance_same {segment : Segment} {item : MasakariHost}
    (hone : w.masakariOf host = [(segment, item)]) {on : Bool} (hsame : item.maintained = on) :
    (w.setMaintenance host on).Within H w := by
  refine ⟨(Within.refl w).services, rfl, fun seg hseg => ?_⟩
  refine List.forall₂_map_left_iff.mpr (List.forall₂_same.mpr fun i hi => ?_)
  split
  · rename_i hi'
    have hfound : (seg, i) ∈ w.masakariOf host := mem_masakariOf.mpr ⟨hseg, hi, hi'.1⟩
    rw [hone] at hfound
    cases List.mem_singleton.mp hfound
    exact absurd hsame hi'.2
  · exact .refl i

end Cloud

/-! ## The calls of an execution -/

/-- A call that writes is for what belongs to the host. -/
def Aimed (host : String) (w : Cloud) : {τ : Type} → Call τ → Prop
  | _, .enableService service =>
    ∃ s ∈ w.services, s.id = service.id ∧ isComputeOf host s = true
  | _, .disableService service _ =>
    ∃ s ∈ w.services, s.id = service.id ∧ isComputeOf host s = true
  | _, .updateHost item segment _ =>
    segment ∈ w.segments ∧ ∃ i ∈ w.hosts segment, i.id = item.id ∧ i.name = some host
  | _, _ => True

section Aimed

variable {H : String → Prop} {w w' u : Cloud} {host : String}

theorem aimed_within (h : w.Within H u) {τ : Type} (op : Call τ) (ha : Aimed host w op) :
    Aimed host u op := by
  have hservice : ∀ service : NovaService,
      (∃ s ∈ w.services, s.id = service.id ∧ isComputeOf host s = true) →
      ∃ s ∈ u.services, s.id = service.id ∧ isComputeOf host s = true := by
    rintro service ⟨s, hs, hid, hcompute⟩
    obtain ⟨s', hs', hsame⟩ := forall₂_exists h.services hs
    exact ⟨s', hs', hsame.id.trans hid, (hsame.compute host).trans hcompute⟩
  cases op with
  | enableService service => exact hservice service ha
  | disableService service reason => exact hservice service ha
  | updateHost item segment on =>
    obtain ⟨hsegment, i, hi, hid, hname⟩ := ha
    obtain ⟨i', hi', hsame⟩ := forall₂_exists (h.hosts segment hsegment) hi
    exact ⟨h.segments ▸ hsegment, i', hi', hsame.id.trans hid, hsame.name.trans hname⟩
  | _ => trivial

theorem withStatus_within (hw : w.Sound) {service : NovaService} (status : String)
    (h : ∃ s ∈ w.services, s.id = service.id ∧ isComputeOf host s = true) :
    w.Within (· = host) { w with services := w.services.map (withStatus service status) } := by
  obtain ⟨s₀, hs₀, hid, hcompute⟩ := h
  refine ⟨List.forall₂_map_right_iff.mpr (List.forall₂_same.mpr fun s hs => ?_), rfl,
    (Cloud.Within.refl w).hosts⟩
  unfold withStatus
  split
  · rename_i heq
    rw [List.inj_on_of_nodup_map hw.services hs hs₀ (heq.trans hid.symm)]
    refine ⟨rfl, rfl, rfl, fun hno => ?_⟩
    rw [hno host rfl] at hcompute
    cases hcompute
  · exact .refl s

/-- Such a call writes only to what belongs to the host. -/
theorem aimed_effect (hw : w.Sound) {τ : Type} (op : Call τ) (ha : Aimed host w op) :
    w.Within (· = host) (w.effect op) := by
  cases op with
  | enableService service => exact withStatus_within hw "enabled" ha
  | disableService service reason => exact withStatus_within hw "disabled" ha
  | updateHost item segment on =>
    obtain ⟨_, i₀, hi₀, hid, hname⟩ := ha
    refine ⟨(Cloud.Within.refl w).services, rfl, fun seg hseg => ?_⟩
    by_cases hsegment : seg = segment
    · subst hsegment
      have hupdate : (w.effect (.updateHost item seg on)).hosts seg =
          (w.hosts seg).map (withMaintenance item on) := Function.update_self _ _ _
      rw [hupdate]
      refine List.forall₂_map_right_iff.mpr (List.forall₂_same.mpr fun i hi => ?_)
      unfold withMaintenance
      split
      · rename_i heq
        rw [List.inj_on_of_nodup_map (hw.hosts seg hseg) hi hi₀ (heq.trans hid.symm)]
        exact ⟨rfl, rfl, fun hno => absurd hname (hno host rfl)⟩
      · exact .refl i
    · have hupdate : (w.effect (.updateHost item segment on)).hosts seg = w.hosts seg :=
        Function.update_of_ne hsegment _ _
      rw [hupdate]
      exact (Cloud.Within.refl w).hosts seg hseg
  | _ => exact .refl w

theorem aimed_step {ev : CallEvent} (hw : w.Sound) (ha : Aimed host w ev.op)
    (h : CloudStep w ev w') : w.Within (· = host) w' := by
  cases h with
  | answered _ => exact aimed_effect hw _ ha
  | raised heff =>
    rcases heff with rfl | rfl
    · exact .refl w'
    · exact aimed_effect hw _ ha

end Aimed

/-! ## What an action brings about -/

/-- Nova and Masakari as an execution on the host sees them, with executions on other hosts. -/
abbrev outageEnv (host : String) : Env Call Exn Cloud :=
  Env.relying CloudStep (Cloud.Within (· ≠ host))

section Actions

variable {w u : Cloud} {host : String} {α : Type}

theorem wp_call {τ : Type} {op : Call τ} {k : τ → Op α} {Q : α → Cloud → Prop}
    (hop : Aimed host w op)
    (hk : ∀ u a, w.Within (· ≠ host) u → u.Truthful op a →
      (k a).wp (outageEnv host) (Aimed host) Q (u.effect op)) :
    (Prog.call op k).wp (outageEnv host) (Aimed host) Q w := by
  refine ⟨hop, fun a w' hev => ?_⟩
  obtain ⟨u, hrely, hstep⟩ := hev
  cases hstep with
  | answered htruth => exact hk u a hrely htruth

theorem wp_exactlyOne {ρ : Type} {e : Exn} {xs : List ρ} {Q : ρ → Cloud → Prop}
    (h : ∀ x, xs = [x] → Q x w) :
    (exactlyOne e xs).wp (outageEnv host) (Aimed host) Q w := by
  unfold exactlyOne
  split
  · exact h _ rfl
  · trivial

theorem novaService_wp {Q : NovaService → Cloud → Prop}
    (h : ∀ service u, w.Within (· ≠ host) u → u.novaOf host = [service] → Q service u) :
    (novaService host).wp (outageEnv host) (Aimed host) Q w := by
  refine wp_call trivial fun u services hrely htruth => wp_exactlyOne fun service hone => ?_
  have hfound : services.filter (isComputeOf host) = u.novaOf host := htruth
  exact h service u hrely (hfound.symm.trans hone)

theorem masakariMatches_wp (segments : List Segment) :
    ∀ (w : Cloud) (Q : List (Segment × MasakariHost) → Cloud → Prop),
      (∀ u, w.Within (· ≠ host) u → Q ({ w with segments }.masakariOf host) u) →
      (∀ segment ∈ segments, segment ∈ w.segments) →
      (masakariMatches host segments).wp (outageEnv host) (Aimed host) Q w := by
  induction segments with
  | nil => exact fun w Q h _ => h w (.refl w)
  | cons segment segments ih =>
    intro w Q h hall
    refine wp_call trivial fun u items hrely htruth => ?_
    have hitems : items = u.hosts segment := htruth
    have hin : ∀ s ∈ segment :: segments, s ∈ u.segments :=
      fun s hs => hrely.segments ▸ hall s hs
    refine wp_bind (p := masakariMatches host segments)
      (ih u _ (fun v hv => ?_) fun s hs => hin s (List.mem_cons_of_mem _ hs))
    have hmatches : ({ w with segments := segment :: segments } : Cloud).masakariOf host =
        ({ u with segments := segment :: segments } : Cloud).masakariOf host := by
      refine (Cloud.Within.masakariOf (w := { w with segments := segment :: segments })
        (u := { u with segments := segment :: segments }) ⟨hrely.services, rfl, fun s hs => ?_⟩).symm
      exact hrely.hosts s (hall s hs)
    have hQ := h v (hrely.trans hv)
    rw [hmatches] at hQ
    subst hitems
    exact hQ

theorem masakariHost_wp {Q : Segment × MasakariHost → Cloud → Prop}
    (h : ∀ x u, w.Within (· ≠ host) u → u.masakariOf host = [x] → Q x u) :
    (masakariHost host).wp (outageEnv host) (Aimed host) Q w := by
  refine wp_call trivial fun u segments hrely htruth => ?_
  have hsegments : segments = u.segments := htruth
  subst hsegments
  refine wp_bind (p := masakariMatches host u.segments)
    (masakariMatches_wp u.segments u _ (fun v hv => wp_exactlyOne fun x hone => ?_) fun _ hs => hs)
  exact h x v (hrely.trans hv) (hv.masakariOf.trans hone)

theorem novaUpdate_wp {service : NovaService} (hw : w.Sound) (hone : w.novaOf host = [service])
    (on : Bool) (reason : String) :
    (novaUpdate service on reason).wp (outageEnv host) (Aimed host)
      (fun _ u => (w.setNova host on).Within (· ≠ host) u) w := by
  have hmem : service ∈ w.novaOf host := hone ▸ List.mem_singleton.mpr rfl
  obtain ⟨hservice, hcompute⟩ := List.mem_filter.mp hmem
  have hskip : service.status = some (statusOf on) → (w.setNova host on).Within (· ≠ host) w := by
    intro hstatus
    rw [Cloud.setNova_same hone hstatus]
    exact .refl w
  have hwrite : ∀ u : Cloud, w.Within (· ≠ host) u → (w.setNova host on).Within (· ≠ host)
      { u with services := u.services.map (withStatus service (statusOf on)) } := by
    intro u hrely
    obtain ⟨s, hs, hid⟩ := hrely.novaOf hone
    rw [Cloud.setNova_services (hrely.sound hw) hs hid]
    exact hrely.setNova on
  unfold novaUpdate
  cases on with
  | true =>
    simp only [if_true]
    split
    · exact wp_call ⟨service, hservice, rfl, hcompute⟩ fun u _ hrely _ => hwrite u hrely
    · rename_i hsame
      exact hskip (Decidable.not_not.mp hsame)
  | false =>
    simp only [Bool.false_eq_true, if_false]
    split
    · exact wp_call ⟨service, hservice, rfl, hcompute⟩ fun u _ hrely _ => hwrite u hrely
    · rename_i hsame
      exact hskip (Decidable.not_not.mp hsame)

theorem setNovaService_wp (hw : w.Sound) (on : Bool) (reason : String) :
    (setNovaService host on reason).wp (outageEnv host) (Aimed host)
      (fun _ u => (w.setNova host on).Within (· ≠ host) u) w := by
  refine wp_bind (novaService_wp fun service u hrely hone => wp_bind ?_)
  refine wp_mono (novaUpdate_wp (hrely.sound hw) hone on reason) fun _ v hv => ?_
  exact (hrely.setNova on).trans hv

theorem setMasakariMaintenance_wp (hw : w.Sound) (on : Bool) :
    (setMasakariMaintenance host on).wp (outageEnv host) (Aimed host)
      (fun _ u => (w.setMaintenance host on).Within (· ≠ host) u) w := by
  refine wp_bind (masakariHost_wp fun x u hrely hone => ?_)
  obtain ⟨segment, item⟩ := x
  have hmem : (segment, item) ∈ u.masakariOf host := hone ▸ List.mem_singleton.mpr rfl
  obtain ⟨hsegment, hitem, hname⟩ := Cloud.mem_masakariOf.mp hmem
  refine wp_bind ?_
  unfold masakariUpdate
  split
  · rename_i hneed
    refine wp_call ⟨hsegment, item, hitem, rfl, hname⟩ fun v _ hv _ => ?_
    have hupdate := Cloud.setMaintenance_update (H := (· ≠ host)) ((hrely.trans hv).sound hw)
      (hv.masakariOf.trans hone) hneed
    exact ((hrely.trans hv).setMaintenance on).trans hupdate
  · rename_i hsame
    exact (hrely.setMaintenance on).trans (Cloud.setMaintenance_same hone (by simpa using hsame))

/-- What an action does to Nova and Masakari. -/
def Action.outcome (host : String) : Action → Cloud → Cloud
  | .setMasakariMaintenance on, w => w.setMaintenance host on
  | .setNovaService on, w => w.setNova host on
  | .failSafeHost, w => (w.setNova host false).setMaintenance host true
  | _, w => w

theorem Action.outcome_within (h : w.Within (· ≠ host) u) (a : Action) :
    (a.outcome host w).Within (· ≠ host) (a.outcome host u) := by
  cases a with
  | setMasakariMaintenance on => exact h.setMaintenance on
  | setNovaService on => exact h.setNova on
  | failSafeHost => exact (h.setNova false).setMaintenance true
  | _ => exact h

/-- The call writes to neither service. -/
def Idle {τ : Type} (op : Call τ) : Prop := ∀ (host : String) (w : Cloud), w.effect op = w ∧ Aimed host w op

theorem idle_wp {p : Op α} (hp : p.Uses Idle) (h : w.Within (· ≠ host) u) :
    p.wp (outageEnv host) (Aimed host) (fun _ v => w.Within (· ≠ host) v) u := by
  induction p generalizing u with
  | done r =>
    cases r with
    | ok a => exact h
    | error e => trivial
  | call op k ih =>
    obtain ⟨hop, hk⟩ := hp
    refine wp_call (hop host u).2 fun v a hrely _ => ?_
    rw [(hop host v).1]
    exact ih a (hk a) (h.trans hrely)

/-- The actions that write. -/
def Action.writing : Action → Bool
  | .setMasakariMaintenance _ => true
  | .setNovaService _ => true
  | .failSafeHost => true
  | _ => false

theorem touches_idle_call {a : Action} (ha : a.writing = false) {τ : Type} (op : Call τ)
    (h : Touches host a op) : Idle op := by
  intro other w
  cases op with
  | enableService service => rw [h.2] at ha; cases ha
  | disableService service reason =>
    rcases h.2 with rfl | rfl <;> cases ha
  | updateHost item segment on =>
    rcases h.2 with rfl | ⟨rfl, _⟩ <;> cases ha
  | _ => exact ⟨rfl, trivial⟩

variable (conf : Options) (ctx : ActionContext) (input : Input)

theorem Action.outcome_wp (hw : w.Sound) (a : Action) :
    (a.run conf ctx input).wp (outageEnv input.host) (Aimed input.host)
      (fun _ u => (a.outcome input.host w).Within (· ≠ input.host) u) w := by
  have hidle : a.writing = false → (a.run conf ctx input).wp (outageEnv input.host) (Aimed input.host)
      (fun _ u => w.Within (· ≠ input.host) u) w := by
    intro ha
    refine idle_wp ((a.run_touches conf ctx input).mono ?_ fun _ _ => trivial) (.refl w)
    exact fun op h => touches_idle_call ha op h
  cases a with
  | setMasakariMaintenance on => exact wp_bind (setMasakariMaintenance_wp hw on)
  | setNovaService on => exact wp_bind (setNovaService_wp hw on _)
  | failSafeHost =>
    refine wp_bind (wp_bind (wp_mono (setNovaService_wp hw false _) fun _ u hu => ?_))
    have hsound : u.Sound := hu.sound ((w.within_setNova input.host false).sound hw)
    refine wp_bind (wp_mono (setMasakariMaintenance_wp hsound true) fun _ v hv => ?_)
    exact (hu.setMaintenance true).trans hv
  | _ => exact hidle rfl

theorem program_wp (hw : w.Sound) (p : Planned) (t : TaskName) :
    (program p.workflow conf ctx input t).wp (outageEnv input.host) (Aimed input.host)
      (fun _ u => ((p.action t).outcome input.host w).Within (· ≠ input.host) u) w := by
  rcases program_eq p conf ctx input t with hp | hp
  · rw [hp]
    exact Action.outcome_wp conf ctx input hw (p.action t)
  · rw [hp]
    trivial

end Actions

/-! ## Executions on different hosts -/

/-- What the success lane of a workflow does to Nova and Masakari. -/
def Planned.outcome (host : String) : Planned → Cloud → Cloud
  | .powerOff, w => (w.setMaintenance host true).setNova host false
  | .reboot, w => ((w.setMaintenance host true).setNova host true).setMaintenance host false
  | .powerOn, w => (w.setNova host true).setMaintenance host false

/-- What some tasks do, one after another. -/
def tasksOutcome (p : Planned) (host : String) (ts : List TaskName) (w : Cloud) : Cloud :=
  ts.foldl (fun u t => (p.action t).outcome host u) w

theorem tasksOutcome_within {p : Planned} {host : String} (ts : List TaskName) {w u : Cloud}
    (h : w.Within (· ≠ host) u) :
    (tasksOutcome p host ts w).Within (· ≠ host) (tasksOutcome p host ts u) := by
  induction ts generalizing w u with
  | nil => exact h
  | cons t ts ih => exact ih (Action.outcome_within h (p.action t))

theorem setNova_setNova (w : Cloud) (host : String) (on on' : Bool) :
    (w.setNova host on).setNova host on' = w.setNova host on' := by
  have hservice : ∀ s : NovaService,
      isComputeOf host { s with status := some (statusOf on) } = isComputeOf host s := fun _ => rfl
  have hsame : ((w.setNova host on).setNova host on').services = (w.setNova host on').services := by
    refine (List.map_map).trans (List.map_congr_left fun s _ => ?_)
    cases hs : isComputeOf host s with
    | true => simp [hs, hservice]
    | false => simp [hs]
  exact congrArg (fun services => { w with services }) hsame

theorem spine_outcome (p : Planned) (host : String) (w : Cloud) :
    tasksOutcome p host p.spine w = p.outcome host w := by
  cases p with
  | powerOff => rfl
  | powerOn => rfl
  | reboot =>
    have htasks : tasksOutcome .reboot host Planned.reboot.spine w =
        (((w.setMaintenance host true).setNova host false).setNova host true).setMaintenance host
          false := rfl
    rw [htasks, setNova_setNova]
    rfl

/-- The execution has ended, and not in the state ERROR. -/
def Succeeded (p : Planned) (s : Run TaskName Call Exn Result Cloud) : Prop :=
  s.ended ∧ ¬ s.error p.workflow

theorem succeeded_chain {p : Planned} {prog : TaskName → Op Result} {env : Env Call Exn Cloud}
    {w₀ : Cloud} {s : Run TaskName Call Exn Result Cloud}
    (h : Reach p.workflow prog env w₀ s) (hs : Succeeded p s) :
    s.history.map (·.task) = p.spine ∧ (∀ r ∈ s.history, r.ok = true) ∧
      Chain prog env w₀ s.history s.world := by
  obtain ⟨hended, herror⟩ := hs
  cases p.lanes.reach_shape h with
  | done _ _ hpass hc =>
    refine ⟨?_, hpass.ok, hc⟩
    rw [hpass.tasks]
    exact List.take_length
  | forward _ a _ ha => rw [Run.ended, ha] at hended; cases hended
  | cleanup _ _ _ _ _ a _ ha => rw [Run.ended, ha] at hended; cases hended
  | cleaned _ _ _ _ _ hfailed => exact absurd ⟨hended, .inl hfailed⟩ herror
  | stuck _ good bad _ hh hb hsucc =>
    rcases hsucc with ⟨hfailed, _⟩ | ⟨_, hnone⟩
    · exact absurd ⟨hended, .inl hfailed⟩ herror
    · have hunhandled : p.workflow.handlesError bad.task = false := by
        unfold Workflow.handlesError
        unfold Workflow.successors at hnone
        split
        · rfl
        · rename_i spec hspec
          rw [hspec] at hnone
          obtain ⟨herrors, _⟩ := List.append_eq_nil_iff.mp hnone
          simpa using herrors
      have hbad : bad ∈ s.history := hh ▸ List.mem_append_right good List.mem_cons_self
      exact absurd ⟨hended, .inr ⟨bad, hbad, hb.error, hunhandled⟩⟩ herror

variable {ι : Type} {ex : ι → Execution}

/-- The executions over one Nova and one Masakari. -/
def outages (ex : ι → Execution) : Parallel ι TaskName Action Call Exn Result Cloud where
  wf i := (ex i).workflow
  prog i := (ex i).program
  env := CloudStep
  drift := Cloud.Within fun _ => False

/-- Each execution relies on the others to leave alone what belongs to its host. -/
def outagesGuarantee (hhosts : ∀ i j, (ex i).host = (ex j).host → i = j) :
    RelyGuarantee (outages ex) where
  lanes i := (ex i).planned.lanes
  sound := Cloud.Sound
  rely i := Cloud.Within (· ≠ (ex i).host)
  calls i := Aimed (ex i).host
  frame := Cloud.Within fun host => ∃ i, (ex i).host = host
  rely_refl _ w := .refl w
  rely_trans _ _ _ _ h h' := h.trans h'
  frame_refl w := .refl w
  frame_trans _ _ _ h h' := h.trans h'
  sound_rely _ _ _ hw h := h.sound hw
  calls_rely _ _ _ _ op h ha := aimed_within h op ha
  allowed i t _ hw :=
    wp_mono (program_wp (ex i).conf (ex i).ctx (ex i).input hw (ex i).planned t) fun _ _ _ => trivial
  guarantee i _ ev _ hw ha hstep := by
    have hwithin := aimed_step hw ha hstep
    refine ⟨hwithin.sound hw, hwithin.mono fun host h => ⟨i, h.symm⟩, fun j hj => ?_⟩
    refine hwithin.mono fun host hhost hsame => hj (hhosts j i ?_)
    exact hsame.symm.trans hhost
  drift _ _ hw h := ⟨h.sound hw, h.mono fun _ => False.elim, fun _ => h.mono fun _ => False.elim⟩

/-- What a run brings about whose tasks all succeeded. -/
theorem chain_outcome (hhosts : ∀ i j, (ex i).host = (ex j).host → i = j) {i : ι}
    {h : List (Record TaskName Call Exn Result Cloud)} {w w' : Cloud} (hw : w.Sound)
    (hc : Chain (ex i).program (outageEnv (ex i).host) w h w') (hok : ∀ r ∈ h, r.ok = true) :
    (tasksOutcome (ex i).planned (ex i).host (h.map (·.task)) w).Within (· ≠ (ex i).host) w' := by
  induction h generalizing w with
  | nil =>
    rw [show w' = w from hc]
    exact .refl w
  | cons r h ih =>
    obtain ⟨hran, hrest⟩ := hc
    have hwp : ((ex i).program r.task).wp (outageEnv (ex i).host) (Aimed (ex i).host)
        (fun _ u => (((ex i).planned.action r.task).outcome (ex i).host w).Within
          (· ≠ (ex i).host) u) w :=
      program_wp (ex i).conf (ex i).ctx (ex i).input hw (ex i).planned r.task
    have hsound : r.after.Sound :=
      (outagesGuarantee hhosts).sound_steps (i := i) hw hran.steps hran.drives
    have htask : (((ex i).planned.action r.task).outcome (ex i).host w).Within (· ≠ (ex i).host)
        r.after := by
      have hlast := wp_steps hran.steps hran.drives hwp
      cases hres : r.result with
      | error e =>
        have hrok := hok r List.mem_cons_self
        rw [Record.ok, hres] at hrok
        cases hrok
      | ok a =>
        rw [hres] at hlast
        exact hlast
    exact (tasksOutcome_within (h.map (·.task)) htask).trans
      (ih hsound hrest fun r' hr' => hok r' (List.mem_cons_of_mem r hr'))

variable [DecidableEq ι] {w₀ : Cloud} {c : Shared ι TaskName Call Exn Result Cloud}

/-- An execution that has succeeded has left its host as its workflow says. -/
theorem outcome_of_succeeded (hhosts : ∀ i j, (ex i).host = (ex j).host → i = j) (hw : w₀.Sound)
    (h : (outages ex).Reach w₀ c) {i : ι} (hs : Succeeded (ex i).planned (c.runs i)) :
    ((ex i).planned.outcome (ex i).host w₀).Within (· ≠ (ex i).host) c.world := by
  have hholds := (outagesGuarantee hhosts).reach hw h
  obtain ⟨htasks, hok, hc⟩ := succeeded_chain (hholds.run i) hs
  have houtcome := chain_outcome hhosts hw hc hok
  rw [htasks, spine_outcome] at houtcome
  exact houtcome.trans (hholds.rely i)

/-- **Outages of different hosts do not interfere.** In any interleaving of executions that are each
on a host of its own, an execution that has succeeded has left its host as its workflow says, and
nothing differs from the start but what belongs to the hosts of the executions. -/
theorem outages_independent (hhosts : ∀ i j, (ex i).host = (ex j).host → i = j) (hw : w₀.Sound)
    (h : (outages ex).Reach w₀ c) :
    (∀ i, Succeeded (ex i).planned (c.runs i) →
      ((ex i).planned.outcome (ex i).host w₀).Within (· ≠ (ex i).host) c.world) ∧
      w₀.Within (fun host => ∃ i, (ex i).host = host) c.world :=
  ⟨fun _ hs => outcome_of_succeeded hhosts hw h hs, ((outagesGuarantee hhosts).reach hw h).frame⟩

/-- `compute-01` is in service, `compute-02` is on and out of service. -/
def twoHosts : Cloud where
  services := [idleService "enabled",
    { id := "service-2", host := "compute-02", binary := "nova-compute", status := "disabled",
      state := "up" }]
  segments := [⟨"segment-1"⟩]
  hosts _ := [{ id := "host-1", name := "compute-01", onMaintenance := some false },
    { id := "host-2", name := "compute-02", onMaintenance := some true }]

/-- The services answer every call; the node of `compute-01` is in the given state. -/
def twoHostsSim (power : String) : Simulator Call Exn Cloud
  | w, _, .nodes =>
    (.ok [{ id := "node-1", name := "compute-01", powerState := power },
      { id := "node-2", name := "compute-02", powerState := "power on" }], w)
  | w, _, .getNode node => (.ok node, w)
  | w, _, .services _ => (.ok w.services, w)
  | w, _, .segments => (.ok w.segments, w)
  | w, _, .hosts segment => (.ok (w.hosts segment), w)
  | w, _, .enableService service => (.ok (), w.effect (.enableService service))
  | w, _, .disableService service reason => (.ok (), w.effect (.disableService service reason))
  | w, _, .updateHost item segment on => (.ok (), w.effect (.updateHost item segment on))
  | w, _, op => ((idleCloud "enabled" () op).1, w)

theorem twoHostsSim_step (power : String) (w : Cloud) {τ : Type} (op : Call τ) :
    CloudStep w ⟨op, (twoHostsSim power w op).1⟩ (twoHostsSim power w op).2 := by
  cases op <;> first
    | exact .answered rfl
    | exact .answered trivial

/-- An execution on `compute-01`, and a return of `compute-02`. -/
def twoOutages (planned : Planned) (second : Bool) : Execution where
  planned := if second then .powerOn else planned
  conf := .declared
  ctx := { workflowExecutionId := if second then "run-b" else "run-a" }
  input := {
    host := if second then "compute-02" else "compute-01"
    staleDomainsChecked := .bool true }

/-- The two executions, turn by turn, until both have ended. -/
def twoOutagesEnd (planned : Planned) (power : String) (w : Cloud) :
    Shared Bool TaskName Call Exn Result Cloud :=
  (outages (twoOutages planned)).turns (twoHostsSim power) ((outages (twoOutages planned)).init w)
    ((List.replicate 35 [false, true]).flatten)

theorem twoOutages_hosts (planned : Planned) (i j : Bool)
    (h : (twoOutages planned i).host = (twoOutages planned j).host) : i = j := by
  have hne : ("compute-01" : String) ≠ "compute-02" := by decide
  cases i <;> cases j <;> first
    | rfl
    | exact absurd h hne
    | exact absurd h hne.symm

theorem twoHosts_sound : twoHosts.Sound := by
  refine ⟨by decide, fun _ _ => ?_⟩
  show ["host-1", "host-2"].Nodup
  decide

theorem twoOutagesEnd_reach (planned : Planned) (power : String) (w : Cloud) :
    (outages (twoOutages planned)).Reach w (twoOutagesEnd planned power w) :=
  Parallel.turns_reach (twoHostsSim_step power) _ .init

/-- The execution has ended, and every task of it with success. -/
theorem succeeded_of_all {p : Planned} {s : Run TaskName Call Exn Result Cloud}
    (h : (s.active.isEmpty && !s.failed && s.history.all Record.ok) = true) : Succeeded p s := by
  simp only [Bool.and_eq_true, List.isEmpty_iff, Bool.not_eq_true', List.all_eq_true] at h
  obtain ⟨⟨hactive, hfailed⟩, hok⟩ := h
  refine ⟨hactive, ?_⟩
  rintro ⟨_, hfail | ⟨r, hr, hbad, _⟩⟩
  · rw [hfailed] at hfail
    cases hfail
  · rw [hok r hr] at hbad
    cases hbad

/-- `compute-01` is powered off while `compute-02` returns. -/
def powerOffEnd : Shared Bool TaskName Call Exn Result Cloud :=
  twoOutagesEnd .powerOff "power off" twoHosts

theorem powerOffEnd_reach : (outages (twoOutages .powerOff)).Reach twoHosts powerOffEnd :=
  twoOutagesEnd_reach .powerOff "power off" twoHosts

theorem powerOffEnd_succeeded (second : Bool) :
    Succeeded (twoOutages .powerOff second).planned (powerOffEnd.runs second) := by
  refine succeeded_of_all ?_
  revert second
  decide +kernel

theorem outages_independent_two :
    (Planned.powerOff.outcome "compute-01" twoHosts).Within (· ≠ "compute-01") powerOffEnd.world ∧
      (Planned.powerOn.outcome "compute-02" twoHosts).Within (· ≠ "compute-02") powerOffEnd.world :=
  have h := (outages_independent (twoOutages_hosts .powerOff) twoHosts_sound powerOffEnd_reach).1
  ⟨h false (powerOffEnd_succeeded false), h true (powerOffEnd_succeeded true)⟩

/-! ## Back in service -/

/-- The Nova service of the host is enabled, and the host is not on maintenance. -/
structure Cloud.InService (host : String) (w : Cloud) : Prop where
  enabled : ∀ s ∈ w.services, isComputeOf host s = true → s.status = some "enabled"
  cleared : ∀ segment ∈ w.segments, ∀ i ∈ w.hosts segment, i.name = some host →
    i.onMaintenance = some false

/-- What a return does to a host that was in service when it was put on maintenance. -/
theorem within_returned {H : String → Prop} {host : String} {w : Cloud} (h : w.InService host) :
    w.Within H (((w.setMaintenance host true).setNova host true).setMaintenance host false) := by
  refine ⟨?_, rfl, fun segment hsegment => ?_⟩
  · refine List.forall₂_map_right_iff.mpr (List.forall₂_same.mpr fun s hs => ?_)
    split
    · rename_i hcompute
      exact ⟨rfl, rfl, rfl, fun _ => (h.enabled s hs hcompute).symm⟩
    · exact .refl s
  · refine List.forall₂_map_right_iff.mpr (List.forall₂_map_right_iff.mpr
      (List.forall₂_same.mpr fun i hi => ?_))
    by_cases hname : i.name = some host
    · have hflag := h.cleared segment hsegment i hi hname
      cases i
      cases hname
      cases hflag
      simpa [MasakariHost.maintained] using Cloud.SameHost.refl _
    · simp only [hname, false_and, if_false]
      exact .refl i

omit [DecidableEq ι] in
theorem outcome_outcome (host : String) (w : Cloud) :
    Planned.powerOn.outcome host (Planned.powerOff.outcome host w) =
      ((w.setMaintenance host true).setNova host true).setMaintenance host false :=
  congrArg (Cloud.setMaintenance host false) (setNova_setNova _ host false true)

/-- **A host that was in service is back in service as it was** after a reboot, and after a power-off
and a later return, whatever the executions on other hosts do meanwhile. -/
theorem return_restores (hhosts : ∀ i j, (ex i).host = (ex j).host → i = j) (hw : w₀.Sound)
    (h : (outages ex).Reach w₀ c) (i : ι) (hin : w₀.InService (ex i).host)
    (hs : Succeeded (ex i).planned (c.runs i)) :
    ((ex i).planned = .reboot → w₀.Within (· ≠ (ex i).host) c.world) ∧
      ((ex i).planned = .powerOff →
        ∀ (ex' : ι → Execution) (c' : Shared ι TaskName Call Exn Result Cloud) (j : ι),
          (∀ i j, (ex' i).host = (ex' j).host → i = j) → (outages ex').Reach c.world c' →
          (ex' j).host = (ex i).host → (ex' j).planned = .powerOn →
          Succeeded .powerOn (c'.runs j) → w₀.Within (· ≠ (ex i).host) c'.world) := by
  have houtcome := outcome_of_succeeded hhosts hw h hs
  refine ⟨fun hp => ?_, fun hp ex' c' j hhosts' h' hhost hp' hs' => ?_⟩
  · rw [hp] at houtcome
    exact (within_returned hin).trans houtcome
  · rw [hp] at houtcome
    have hsound : c.world.Sound := ((outagesGuarantee hhosts).reach hw h).sound
    rw [← hp'] at hs'
    have hreturn := outcome_of_succeeded hhosts' hsound h' hs'
    rw [hp', hhost] at hreturn
    have hboth : (Planned.powerOn.outcome (ex i).host
        (Planned.powerOff.outcome (ex i).host w₀)).Within (· ≠ (ex i).host)
          (Planned.powerOn.outcome (ex i).host c.world) :=
      (houtcome.setNova true).setMaintenance false
    rw [outcome_outcome] at hboth
    exact (within_returned hin).trans (hboth.trans hreturn)

/-- Later `compute-01` returns as well. -/
def powerOnEnd : Shared Bool TaskName Call Exn Result Cloud :=
  twoOutagesEnd .powerOn "power on" powerOffEnd.world

theorem powerOnEnd_reach : (outages (twoOutages .powerOn)).Reach powerOffEnd.world powerOnEnd :=
  twoOutagesEnd_reach .powerOn "power on" powerOffEnd.world

theorem powerOnEnd_succeeded : Succeeded .powerOn (powerOnEnd.runs false) :=
  succeeded_of_all (by decide +kernel)

theorem twoHosts_inService : twoHosts.InService "compute-01" := by
  constructor
  · decide
  · intro segment hsegment i hi hname
    have hall : ∀ i ∈ twoHosts.hosts ⟨"segment-1"⟩, i.name = some "compute-01" →
        i.onMaintenance = some false := by decide
    rw [List.mem_singleton.mp hsegment] at hi
    exact hall i hi hname

theorem return_restores_two : twoHosts.Within (· ≠ "compute-01") powerOnEnd.world :=
  (return_restores (twoOutages_hosts .powerOff) twoHosts_sound
      powerOffEnd_reach false twoHosts_inService (powerOffEnd_succeeded false)).2 rfl
    (twoOutages .powerOn) powerOnEnd false (twoOutages_hosts .powerOn) powerOnEnd_reach rfl rfl
    powerOnEnd_succeeded

end Workbook
end KollaPowerOps
