import KollaPowerOps.Workbook.Gates

/-!
# Workbook.Cloud

Nova and Masakari as an environment that nobody else writes to: the Nova services, and the
Masakari segments with their hosts. A call is answered truthfully and takes effect, or it raises,
and then it may have taken effect or not.

For the mapping of a host name, `novaOf` and `masakariOf` are what a truthful read finds. The two
operations of the fail-safe are described on this state: `setNovaService_cloud` and
`setMasakariMaintenance_cloud`.
-/

namespace KollaPowerOps
namespace Workbook

open Effect TaskGraph Actions

structure Cloud where
  services : List NovaService
  segments : List Segment
  hosts : Segment → List MasakariHost

def withStatus (service : NovaService) (status : String) (s : NovaService) : NovaService :=
  if s.id = service.id then { s with status := some status } else s

def withMaintenance (item : MasakariHost) (on : Bool) (i : MasakariHost) : MasakariHost :=
  if i.id = item.id then { i with onMaintenance := some on } else i

namespace Cloud

/-- What a call changes. -/
def effect (w : Cloud) : {τ : Type} → Call τ → Cloud
  | _, .enableService service =>
    { w with services := w.services.map (withStatus service "enabled") }
  | _, .disableService service _ =>
    { w with services := w.services.map (withStatus service "disabled") }
  | _, .updateHost item segment on =>
    { w with
      hosts := Function.update w.hosts segment ((w.hosts segment).map (withMaintenance item on)) }
  | _, _ => w

/-- The answer of a read says what is there. -/
def Truthful (w : Cloud) : {τ : Type} → Call τ → τ → Prop
  | _, .services host, answer =>
    answer.filter (isComputeOf host) = w.services.filter (isComputeOf host)
  | _, .segments, answer => answer = w.segments
  | _, .hosts segment, answer => answer = w.hosts segment
  | _, _, _ => True

/-- The Nova services of a host. -/
def novaOf (host : String) (w : Cloud) : List NovaService := w.services.filter (isComputeOf host)

/-- The Masakari hosts of a name, each with its segment. -/
def masakariOf (host : String) (w : Cloud) : List (Segment × MasakariHost) :=
  w.segments.flatMap fun segment =>
    ((w.hosts segment).filter fun item => item.name = some host).map (segment, ·)

/-- The Nova service of the host is disabled. -/
def Disabled (host : String) (w : Cloud) : Prop :=
  ∀ service ∈ w.novaOf host, service.status = some "disabled"

/-- The host is on Masakari maintenance. -/
def Maintained (host : String) (w : Cloud) : Prop :=
  ∀ x ∈ w.masakariOf host, x.2.maintained = true

end Cloud

inductive CloudStep : Cloud → CallEvent → Cloud → Prop where
  | answered {w : Cloud} {τ : Type} {op : Call τ} {a : τ} :
      w.Truthful op a → CloudStep w ⟨op, .ok a⟩ (w.effect op)
  | raised {w w' : Cloud} {τ : Type} {op : Call τ} {e : Exn} :
      w' = w ∨ w' = w.effect op → CloudStep w ⟨op, .error e⟩ w'

def isNova {τ : Type} : Call τ → Bool
  | .services _ => true
  | .enableService _ => true
  | .disableService _ _ => true
  | _ => false

def isMasakari {τ : Type} : Call τ → Bool
  | .segments => true
  | .hosts _ => true
  | .updateHost _ _ _ => true
  | _ => false

/-- The call enables a Nova service. -/
def enables {τ : Type} : Call τ → Bool
  | .enableService _ => true
  | _ => false

def disables {τ : Type} : Call τ → Bool
  | .disableService _ _ => true
  | _ => false

/-- The call takes a Masakari host off maintenance. -/
def clears {τ : Type} : Call τ → Bool
  | .updateHost _ _ on => !on
  | _ => false

/-- A call of one of the services raised. -/
def Raised (q : ∀ {τ : Type}, Call τ → Bool) (tr : Trace) : Prop :=
  ∃ ev ∈ tr, q ev.op = true ∧ ∃ e, ev.answer = .error e

/-! ## What a call leaves alone -/

section Effects

variable {w : Cloud} {τ : Type} {op : Call τ} {host : String}

theorem withStatus_compute (service : NovaService) (status : String) (s : NovaService) :
    isComputeOf host (withStatus service status s) = isComputeOf host s := by
  unfold withStatus
  split <;> rfl

theorem novaOf_map (service : NovaService) (status : String) :
    (w.services.map (withStatus service status)).filter (isComputeOf host) =
      (w.novaOf host).map (withStatus service status) := by
  rw [List.filter_map, Cloud.novaOf]
  congr 1
  apply List.filter_congr
  intro s _
  exact withStatus_compute service status s

/-- Whether the mapping of a host name to its Nova service is unique never changes. -/
theorem novaOf_length (w : Cloud) (op : Call τ) (host : String) :
    ((w.effect op).novaOf host).length = (w.novaOf host).length := by
  cases op with
  | enableService service => exact (congrArg List.length (novaOf_map service _)).trans (by simp)
  | disableService service reason =>
    exact (congrArg List.length (novaOf_map service _)).trans (by simp)
  | _ => rfl

theorem services_effect (h : enables op = false) (h' : disables op = false) :
    (w.effect op).services = w.services := by
  cases op with
  | enableService service => cases h
  | disableService service reason => cases h'
  | _ => rfl

theorem masakari_effect (h : isMasakari op = false) :
    (w.effect op).segments = w.segments ∧ (w.effect op).hosts = w.hosts := by
  cases op with
  | updateHost item segment on => cases h
  | _ => exact ⟨rfl, rfl⟩

theorem withMaintenance_name (item : MasakariHost) (on : Bool) (i : MasakariHost) :
    (withMaintenance item on i).name = i.name := by
  unfold withMaintenance
  split <;> rfl

/-- A Masakari host with its segment, after the flag of one host was set. -/
def updated (item : MasakariHost) (segment : Segment) (on : Bool) (x : Segment × MasakariHost) :
    Segment × MasakariHost :=
  if x.1 = segment then (x.1, withMaintenance item on x.2) else x

theorem masakariOf_update (item : MasakariHost) (segment : Segment) (on : Bool) :
    (w.effect (.updateHost item segment on)).masakariOf host =
      (w.masakariOf host).map (updated item segment on) := by
  rw [Cloud.masakariOf, Cloud.masakariOf, List.map_flatMap]
  congr 1
  funext seg
  rw [List.map_map]
  by_cases hseg : seg = segment
  · have hhosts : (w.effect (.updateHost item segment on)).hosts seg =
        (w.hosts seg).map (withMaintenance item on) := by
      rw [hseg]; exact Function.update_self _ _ _
    have hfilter : ((w.hosts seg).map (withMaintenance item on)).filter
          (fun i => i.name = some host) =
        ((w.hosts seg).filter fun i => i.name = some host).map (withMaintenance item on) := by
      rw [List.filter_map]
      congr 1
      apply List.filter_congr
      intro i _
      simp [withMaintenance_name]
    rw [hhosts, hfilter, List.map_map]
    congr 1
    funext i
    simp [updated, hseg]
  · have hhosts : (w.effect (.updateHost item segment on)).hosts seg = w.hosts seg :=
      Function.update_of_ne hseg _ _
    rw [hhosts]
    congr 1
    funext i
    simp [updated, hseg]

theorem masakariOf_length (w : Cloud) (op : Call τ) (host : String) :
    ((w.effect op).masakariOf host).length = (w.masakariOf host).length := by
  cases op with
  | updateHost item segment on => rw [masakariOf_update, List.length_map]
  | _ => rfl

theorem maintained_effect (h : clears op = false) (hw : w.Maintained host) :
    (w.effect op).Maintained host := by
  cases op with
  | updateHost item segment on =>
    have hon : on = true := by simpa [clears] using h
    subst hon
    intro x hx
    rw [masakariOf_update] at hx
    obtain ⟨y, hy, rfl⟩ := List.mem_map.mp hx
    have hmy := hw y hy
    unfold updated withMaintenance
    split
    · split
      · rfl
      · exact hmy
    · exact hmy
  | _ => exact hw

theorem disabled_effect (h : enables op = false) (hw : w.Disabled host) :
    (w.effect op).Disabled host := by
  cases op with
  | enableService service => cases h
  | disableService service reason =>
    intro s hs
    rw [show (w.effect (.disableService service reason)).novaOf host = _ from
      novaOf_map service "disabled"] at hs
    obtain ⟨s', hs', rfl⟩ := List.mem_map.mp hs
    unfold withStatus
    split
    · rfl
    · exact hw s' hs'
  | _ => exact hw

end Effects

/-! ## Truthful mappings -/

section Operations

variable {w w' : Cloud} {host : String} {tr : Trace}

theorem raised_singleton {q : ∀ {τ : Type}, Call τ → Bool} {τ : Type} {op : Call τ} {e : Exn}
    (h : q op = true) : Raised q [⟨op, .error e⟩] :=
  ⟨_, List.mem_singleton.mpr rfl, h, e, rfl⟩

theorem not_raised_of_returns {q : ∀ {τ : Type}, Call τ → Bool} {α : Type} {p : Op α} {a : α}
    (h : Returns p tr a) : ¬ Raised q tr := by
  rintro ⟨ev, hev, _, e, he⟩
  obtain ⟨x, hx⟩ := h.answered ev hev
  rw [he] at hx
  cases hx

/-- A mapping of the host to its Nova service finds the one there is, or a call raised, or the
mapping is not unique. It changes nothing. -/
theorem novaService_cloud {r : Except Exn NovaService} (h : Finishes (novaService host) tr r)
    (hd : Drives CloudStep w tr w') :
    w' = w ∧ ((∃ service, r = .ok service ∧ w.novaOf host = [service]) ∨
      (∃ e, r = .error e) ∧ (Raised isNova tr ∨ (w.novaOf host).length ≠ 1)) := by
  obtain ⟨answer, tr', rfl, hk⟩ | ⟨e, rfl, rfl⟩ := finishes_call.mp h
  · obtain ⟨w₁, hev, htr⟩ := hd.cons_inv
    cases hev with
    | answered htruth =>
      have hfound : answer.filter (isComputeOf host) = w.novaOf host := htruth
      obtain ⟨rfl, hone⟩ := finishes_exactlyOne hk
      have hw := htr.nil_inv
      refine ⟨hw, ?_⟩
      rw [hfound] at hone
      rcases hone with ⟨service, hone, rfl⟩ | ⟨hmany, rfl⟩
      · exact .inl ⟨service, rfl, hone⟩
      · exact .inr ⟨⟨_, rfl⟩, .inr hmany⟩
  · obtain ⟨w₁, hev, htr⟩ := hd.cons_inv
    have hw := htr.nil_inv
    cases hev with
    | raised heff =>
      refine ⟨?_, .inr ⟨⟨e, rfl⟩, .inl (raised_singleton rfl)⟩⟩
      rcases heff with rfl | rfl <;> exact hw

theorem masakariMatches_cloud (segments : List Segment) :
    ∀ (w : Cloud) (tr : Trace) (r : Except Exn (List (Segment × MasakariHost))),
      Finishes (masakariMatches host segments) tr r → Drives CloudStep w tr w' →
      w' = w ∧ ((r = .ok ({ w with segments }.masakariOf host)) ∨
        (∃ e, r = .error e) ∧ Raised isMasakari tr) := by
  induction segments with
  | nil =>
    intro w tr r h hd
    obtain ⟨rfl, rfl⟩ := finishes_done.mp h
    exact ⟨hd.nil_inv, .inl rfl⟩
  | cons segment segments ih =>
    intro w tr r h hd
    obtain ⟨items, tr', rfl, hk⟩ | ⟨e, rfl, rfl⟩ := finishes_call.mp h
    · obtain ⟨w₁, hev, htr⟩ := hd.cons_inv
      cases hev with
      | answered htruth =>
        have hitems : items = w.hosts segment := htruth
        simp only [Prog.bind_ok, Prog.bind_def] at hk
        obtain ⟨found, tr₁, tr₂, rfl, hrest, hend⟩ | ⟨e, hrest, rfl⟩ := finishes_bind.mp hk
        · obtain ⟨rfl, rfl⟩ := finishes_done.mp hend
          rw [List.append_nil] at htr
          obtain ⟨rfl, hfound | ⟨⟨e, he⟩, _⟩⟩ := ih w tr₁ _ hrest htr
          · cases hfound
            subst hitems
            exact ⟨rfl, .inl rfl⟩
          · cases he
        · obtain ⟨rfl, hfound | ⟨_, ev, hev, hq, he⟩⟩ := ih w tr' _ hrest htr
          · cases hfound
          · exact ⟨rfl, .inr ⟨⟨e, rfl⟩, ev, List.mem_cons_of_mem _ hev, hq, he⟩⟩
    · obtain ⟨w₁, hev, htr⟩ := hd.cons_inv
      have hw := htr.nil_inv
      cases hev with
      | raised heff =>
        refine ⟨?_, .inr ⟨⟨e, rfl⟩, raised_singleton rfl⟩⟩
        rcases heff with rfl | rfl <;> exact hw

theorem masakariHost_cloud {r : Except Exn (Segment × MasakariHost)}
    (h : Finishes (masakariHost host) tr r) (hd : Drives CloudStep w tr w') :
    w' = w ∧ ((∃ x, r = .ok x ∧ w.masakariOf host = [x]) ∨
      (∃ e, r = .error e) ∧ (Raised isMasakari tr ∨ (w.masakariOf host).length ≠ 1)) := by
  obtain ⟨segments, tr', rfl, hk⟩ | ⟨e, rfl, rfl⟩ := finishes_call.mp h
  · obtain ⟨w₁, hev, htr⟩ := hd.cons_inv
    cases hev with
    | answered htruth =>
      have hsegments : segments = w.segments := htruth
      subst hsegments
      simp only [Prog.bind_ok, Prog.bind_def] at hk
      obtain ⟨found, tr₁, tr₂, rfl, hmatches, hend⟩ | ⟨e, hmatches, rfl⟩ := finishes_bind.mp hk
      · obtain ⟨rfl, hone⟩ := finishes_exactlyOne hend
        rw [List.append_nil] at htr
        obtain ⟨rfl, hfound | ⟨⟨e, he⟩, _⟩⟩ := masakariMatches_cloud _ w tr₁ _ hmatches htr
        · cases hfound
          rcases hone with ⟨x, hone, rfl⟩ | ⟨hmany, rfl⟩
          · exact ⟨rfl, .inl ⟨x, rfl, hone⟩⟩
          · exact ⟨rfl, .inr ⟨⟨_, rfl⟩, .inr hmany⟩⟩
        · cases he
      · obtain ⟨rfl, hfound | ⟨_, ev, hev, hq, he⟩⟩ := masakariMatches_cloud _ w tr' _ hmatches htr
        · cases hfound
        · exact ⟨rfl, .inr ⟨⟨e, rfl⟩, .inl ⟨ev, List.mem_cons_of_mem _ hev, hq, he⟩⟩⟩
  · obtain ⟨w₁, hev, htr⟩ := hd.cons_inv
    have hw := htr.nil_inv
    cases hev with
    | raised heff =>
      refine ⟨?_, .inr ⟨⟨e, rfl⟩, .inl (raised_singleton rfl)⟩⟩
      rcases heff with rfl | rfl <;> exact hw

/-- The one call of an update: it took effect and returned, or it raised. -/
theorem write_cloud {q : ∀ {τ : Type}, Call τ → Bool} {op : Call Unit} {r : Except Exn Unit}
    (hq : q op = true) (h : Finishes (Prog.request op) tr r) (hd : Drives CloudStep w tr w') :
    (r = .ok () ∧ w' = w.effect op) ∨
      (∃ e, r = .error e) ∧ Raised q tr ∧ (w' = w ∨ w' = w.effect op) := by
  obtain ⟨_, tr', rfl, hk⟩ | ⟨e, rfl, rfl⟩ := finishes_call.mp h
  · obtain ⟨rfl, rfl⟩ := finishes_done.mp hk
    obtain ⟨w₁, hev, htr⟩ := hd.cons_inv
    have hw := htr.nil_inv
    cases hev with
    | answered _ => exact .inl ⟨rfl, hw⟩
  · obtain ⟨w₁, hev, htr⟩ := hd.cons_inv
    have hw := htr.nil_inv
    subst hw
    cases hev with
    | raised heff => exact .inr ⟨⟨e, rfl⟩, raised_singleton hq, heff⟩

def statusOf (enabled : Bool) : String := if enabled then "enabled" else "disabled"

/-- After an update that returned, the one Nova service of the host has the status. An update
that raised is a call that raised. -/
theorem novaUpdate_cloud {service : NovaService} {enabled : Bool} {reason : String}
    {r : Except Exn Unit} (hone : w.novaOf host = [service])
    (h : Finishes (novaUpdate service enabled reason) tr r) (hd : Drives CloudStep w tr w') :
    (w'.segments = w.segments ∧ w'.hosts = w.hosts) ∧
      ((r = .ok () ∧ ∃ s, w'.novaOf host = [s] ∧ s.status = some (statusOf enabled)) ∨
        (∃ e, r = .error e) ∧ Raised isNova tr) := by
  have hnone : ∀ status, service.status = some status → Finishes (pure () : Op Unit) tr r →
      (w'.segments = w.segments ∧ w'.hosts = w.hosts) ∧
        r = .ok () ∧ ∃ s, w'.novaOf host = [s] ∧ s.status = some status := by
    intro status hs hp
    obtain ⟨rfl, rfl⟩ := finishes_done.mp hp
    have hw := hd.nil_inv
    subst hw
    exact ⟨⟨rfl, rfl⟩, rfl, service, hone, hs⟩
  have hcall : ∀ (op : Call Unit) (status : String), isNova op = true → isMasakari op = false →
      (w.effect op).novaOf host = (w.novaOf host).map (withStatus service status) →
      Finishes (Prog.request op) tr r →
      (w'.segments = w.segments ∧ w'.hosts = w.hosts) ∧
        ((r = .ok () ∧ ∃ s, w'.novaOf host = [s] ∧ s.status = some status) ∨
          (∃ e, r = .error e) ∧ Raised isNova tr) := by
    intro op status hnova hmas heff hp
    have hframe := masakari_effect hmas (w := w)
    obtain ⟨rfl, rfl⟩ | ⟨he, hraised, rfl | rfl⟩ := write_cloud (q := isNova) hnova hp hd
    · refine ⟨hframe, .inl ⟨rfl, withStatus service status service, ?_, ?_⟩⟩
      · rw [heff, hone]; rfl
      · simp [withStatus]
    · exact ⟨⟨rfl, rfl⟩, .inr ⟨he, hraised⟩⟩
    · exact ⟨hframe, .inr ⟨he, hraised⟩⟩
  unfold novaUpdate at h
  cases enabled with
  | true =>
    simp only [if_true] at h
    split at h
    · exact hcall (.enableService service) "enabled" rfl rfl (novaOf_map service "enabled") h
    · rename_i hs
      obtain ⟨hframe, hok⟩ := hnone "enabled" (by simpa using hs) h
      exact ⟨hframe, .inl hok⟩
  | false =>
    simp only [Bool.false_eq_true, if_false] at h
    split at h
    · exact hcall (.disableService service reason) "disabled" rfl rfl (novaOf_map service "disabled") h
    · rename_i hs
      obtain ⟨hframe, hok⟩ := hnone "disabled" (by simpa using hs) h
      exact ⟨hframe, .inl hok⟩

/-- Enabling or disabling the Nova service of a host. -/
theorem setNovaService_cloud {enabled : Bool} {reason : String} {r : Except Exn NovaResult}
    (h : Finishes (setNovaService host enabled reason) tr r) (hd : Drives CloudStep w tr w') :
    (w'.segments = w.segments ∧ w'.hosts = w.hosts) ∧
      (((∃ a, r = .ok a) ∧ ∃ s, w'.novaOf host = [s] ∧ s.status = some (statusOf enabled)) ∨
        (∃ e, r = .error e) ∧ (Raised isNova tr ∨ (w.novaOf host).length ≠ 1)) := by
  simp only [setNovaService, Prog.bind_def] at h
  obtain ⟨service, tr₁, tr₂, rfl, hfind, hk⟩ | ⟨e, hfind, rfl⟩ := finishes_bind.mp h
  · obtain ⟨w₁, hd₁, hd₂⟩ := hd.append_inv
    obtain ⟨rfl, ⟨s, hs, hone⟩ | ⟨⟨e, he⟩, _⟩⟩ := novaService_cloud hfind hd₁
    · cases hs
      obtain ⟨_, tr₃, tr₄, rfl, hupdate, hend⟩ | ⟨e, hupdate, rfl⟩ := finishes_bind.mp hk
      · obtain ⟨rfl, rfl⟩ := finishes_done.mp hend
        rw [List.append_nil] at hd₂
        obtain ⟨hframe, ⟨_, hdone⟩ | ⟨⟨e, he⟩, _⟩⟩ := novaUpdate_cloud hone hupdate hd₂
        · exact ⟨hframe, .inl ⟨⟨_, rfl⟩, hdone⟩⟩
        · cases he
      · obtain ⟨hframe, ⟨he, _⟩ | ⟨_, ev, hev, hq, he⟩⟩ := novaUpdate_cloud hone hupdate hd₂
        · cases he
        · exact ⟨hframe, .inr ⟨⟨e, rfl⟩, .inl ⟨ev, List.mem_append_right _ hev, hq, he⟩⟩⟩
    · cases he
  · obtain ⟨rfl, ⟨s, hs, _⟩ | ⟨_, hbad⟩⟩ := novaService_cloud hfind hd
    · cases hs
    · exact ⟨⟨rfl, rfl⟩, .inr ⟨⟨e, rfl⟩, hbad⟩⟩

/-- Setting or clearing the maintenance of a host. -/
theorem setMasakariMaintenance_cloud {on : Bool} {r : Except Exn MaintenanceResult}
    (h : Finishes (setMasakariMaintenance host on) tr r) (hd : Drives CloudStep w tr w') :
    w'.services = w.services ∧
      (((∃ a, r = .ok a) ∧ ∀ x ∈ w'.masakariOf host, x.2.maintained = on) ∨
        (∃ e, r = .error e) ∧ (Raised isMasakari tr ∨ (w.masakariOf host).length ≠ 1)) := by
  simp only [setMasakariMaintenance, Prog.bind_def] at h
  obtain ⟨⟨segment, item⟩, tr₁, tr₂, rfl, hfind, hk⟩ | ⟨e, hfind, rfl⟩ := finishes_bind.mp h
  · obtain ⟨w₁, hd₁, hd₂⟩ := hd.append_inv
    obtain ⟨rfl, ⟨x, hx, hone⟩ | ⟨⟨e, he⟩, _⟩⟩ := masakariHost_cloud hfind hd₁
    · cases hx
      unfold masakariUpdate at hk
      split at hk
      · -- the flag differs: one call sets it
        obtain ⟨_, tr₃, tr₄, rfl, hupdate, hend⟩ | ⟨e, hupdate, rfl⟩ := finishes_bind.mp hk
        · obtain ⟨rfl, rfl⟩ := finishes_done.mp hend
          rw [List.append_nil] at hd₂
          obtain ⟨_, rfl⟩ | ⟨⟨e, he⟩, _⟩ := write_cloud (q := isMasakari) rfl hupdate hd₂
          · refine ⟨services_effect rfl rfl, .inl ⟨⟨_, rfl⟩, ?_⟩⟩
            intro x hx
            rw [masakariOf_update, hone] at hx
            rw [List.mem_singleton.mp hx]
            simp [updated, withMaintenance, MasakariHost.maintained]
          · cases he
        · obtain ⟨he, _⟩ | ⟨_, ⟨ev, hev, hq, he⟩, hw⟩ :=
            write_cloud (q := isMasakari) rfl hupdate hd₂
          · cases he
          · refine ⟨?_, .inr ⟨⟨e, rfl⟩, .inl ⟨ev, List.mem_append_right _ hev, hq, he⟩⟩⟩
            rcases hw with rfl | rfl <;> rfl
      · rename_i hsame
        obtain ⟨_, tr₃, tr₄, rfl, hupdate, hend⟩ | ⟨e, hupdate, rfl⟩ := finishes_bind.mp hk
        · obtain ⟨rfl, _⟩ := finishes_done.mp hupdate
          obtain ⟨rfl, rfl⟩ := finishes_done.mp hend
          have hw := hd₂.nil_inv
          subst hw
          refine ⟨rfl, .inl ⟨⟨_, rfl⟩, ?_⟩⟩
          intro x hx
          rw [hone] at hx
          rw [List.mem_singleton.mp hx]
          simpa using hsame
        · cases (finishes_done.mp hupdate).2
    · cases he
  · obtain ⟨rfl, ⟨x, hx, _⟩ | ⟨_, hbad⟩⟩ := masakariHost_cloud hfind hd
    · cases hx
    · exact ⟨rfl, .inr ⟨⟨e, rfl⟩, hbad⟩⟩

end Operations

end Workbook
end KollaPowerOps
