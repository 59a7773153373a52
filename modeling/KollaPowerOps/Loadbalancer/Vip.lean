import KollaPowerOps.Loadbalancer.Handlers

/-!
# Loadbalancer.Vip

What serves the internal VIP while the handlers run.

The master is told from the backups by the text of the VIP in the output of `ip`, which an IPv6
address can have inside another. And a backup whose start fails only leaves the play: the master is
stopped when no backup is left.
-/

namespace KollaPowerOps
namespace Loadbalancer

open Linear WordSearch

variable {H A : Type} [DecidableEq H]

/-- A host is treated as the master exactly when the VIP is one of its addresses. -/
def Grouped (e : Setup H A) (s : State H) : Prop :=
  ∀ h b, h ∈ s.isMaster b → (b = true ↔ e.vip ∈ e.addresses h)

/-- Every enabled service that was stopped on the host is started again, and answers. -/
def Ready (e : Setup H A) (s : State H) (h : H) : Prop :=
  ∀ service, e.enabled service = true →
    s.stopped service h = false ∧ s.waiting service h = false

/-- While a container of the master is stopped, another host is ready. -/
def Served (e : Setup H A) (s : State H) : Prop :=
  ∀ m ∈ e.loadbalancer, e.vip ∈ e.addresses m → (∃ service, s.stopped service m = true) →
    ∃ x ∈ e.loadbalancer, x ≠ m ∧ Ready e s x

/-- Some service is to be restarted on the host. -/
def Touched (e : Setup H A) (h : H) : Prop := ∃ service, e.restarted service h = true

/-- The text of the VIP stands in an address of the host exactly if the VIP is one of them. -/
def Told (e : Setup H A) (h : H) : Prop :=
  (∃ a ∈ e.addresses h, shows isWord e.vipText (e.shown a) = true) ↔ e.vip ∈ e.addresses h

/-- What the handlers of a backup listen to. -/
def listened : Service → List Service
  | .haproxy => [.haproxy, .keepalived]
  | .proxysql => [.haproxy, .proxysql, .keepalived]
  | .keepalived => [.keepalived]

/-- The service is restarted on the host, as a backup. -/
def Restarts (e : Setup H A) (service : Service) (h : H) : Prop :=
  ∃ topic ∈ listened service, e.restarted topic h = true

def FailsStart (e : Setup H A) (service : Service) (h : H) : Prop :=
  e.enabled service = true ∧ Restarts e service h ∧ e.starts service h = false

def FailsWait (e : Setup H A) (service : Service) (h : H) : Prop :=
  e.enabled service = true ∧ Restarts e service h ∧ e.starts service h = true ∧
    e.answers service h = false

/-- A service does not answer on a backup that was started, and on which those before it were. -/
def StopsAt (e : Setup H A) (before : List Service) (service : Service) : Prop :=
  ∃ x ∈ e.loadbalancer, e.vip ∉ e.addresses x ∧ (∀ s ∈ before, ¬FailsStart e s x) ∧
    FailsWait e service x

/-- The play stops before the master is restarted. -/
def Stops (e : Setup H A) : Prop := StopsAt e [] .haproxy ∨ StopsAt e [.haproxy] .proxysql

/-- The master is not restarted; or the play stops before it is; or some backup starts all that is
to be restarted there. -/
def Spared (e : Setup H A) (m : H) : Prop :=
  ¬Touched e m ∨ Stops e ∨
    ∃ x ∈ e.loadbalancer, e.vip ∉ e.addresses x ∧ ∀ service, ¬FailsStart e service x

variable {e : Setup H A}

/-! ## The master -/

omit [DecidableEq H] in
theorem ipAddrShow_shows {h : H} : shows isWord e.vipText (ipAddrShow e h) = true ↔
    ∃ a ∈ e.addresses h, shows isWord e.vipText (e.shown a) = true := by
  have hline : ∀ a, shows isWord e.vipText (e.lead h ++ ' ' :: (e.shown a ++ '/' :: e.rest h)) = true
      ↔ shows isWord e.vipText (e.shown a) = true := by
    intro a
    rw [shows_split (by decide) e.vipText_plain.1 e.vipText_ne,
      shows_split (by decide) e.vipText_plain.2.1 e.vipText_ne, e.lead_quiet, e.rest_quiet]
    simp
  rw [ipAddrShow, shows_intercalate (by decide) e.vipText_plain.2.2 e.vipText_ne]
  simp only [List.mem_map, exists_exists_and_eq_and, hline]

/-- The groups of the hosts that are restarted. -/
def Divided (e : Setup H A) (g : Groups Bool H) : Prop := ∀ b h, h ∈ g b →
  h ∈ e.loadbalancer ∧ Touched e h ∧ shows isWord e.vipText (ipAddrShow e h) = b

/-- What holds until the master is stopped. -/
structure Before (e : Setup H A) (s : State H) : Prop where
  groups : Divided e s.isMaster
  untouched : ∀ service h, s.stopped service h = true → h ∈ s.isMaster false

/-- All of them are in a group. -/
structure Dividing (e : Setup H A) (g : Groups Bool H) : Prop where
  groups : Divided e g
  all : ∀ h ∈ e.loadbalancer, Touched e h → h ∈ g (shows isWord e.vipText (ipAddrShow e h))

omit [DecidableEq H] in
theorem touched_iff {s : State H} (hs : ∀ service, s.notified (.restart service) = e.restarted service)
    {h : H} : ((restarts [.haproxy, .proxysql, .keepalived]).any fun topic => s.notified topic h) =
      true ↔ Touched e h := by
  simp only [restarts, List.map_cons, List.map_nil, List.any_cons, List.any_nil, Bool.or_false,
    Bool.or_eq_true, hs, Touched]
  constructor
  · rintro (h | h | h)
    · exact ⟨_, h⟩
    · exact ⟨_, h⟩
    · exact ⟨_, h⟩
  · rintro ⟨service, h⟩
    cases service with
    | haproxy => exact .inl h
    | proxysql => exact .inr (.inl h)
    | keepalived => exact .inr (.inr h)

theorem grouping_leads (hnodup : e.loadbalancer.Nodup) (hconfig : e.config = false) :
    LeadsOn (Before e) [checkAddresses e, groupByStatus e] (flush e) fun p => ∃ out g,
      p = ⟨e.loadbalancer, { (flush e).state with ipAddrOutput := out, isMaster := g }⟩ ∧
        Dividing e g := by
  have hnotified : ∀ service, (flush e).state.notified (.restart service) = e.restarted service :=
    fun _ => rfl
  have hquiet : ∀ out, Before e { (flush e).state with ipAddrOutput := out } := fun out =>
    ⟨fun _ h hh => absurd hh List.not_mem_nil, fun _ h hh => absurd hh (by simp [flush])⟩
  refine leadsOn_cons (leads_register (w := fun out => { (flush e).state with ipAddrOutput := out })
    (v := ipAddrShow e) (fun _ _ => rfl) hnodup rfl (fun _ _ _ => rfl) (fun out _ => hquiet out)
    fun out hout _ => leads_nil (Q := fun p => ∃ out, p = ⟨e.loadbalancer,
      { (flush e).state with ipAddrOutput := out }⟩ ∧ ∀ h ∈ e.loadbalancer, Touched e h →
        out h = ipAddrShow e h) ⟨out, rfl, fun h hh htouched => hout h ?_⟩) ?_
  · refine Task.mem_selected_on.mpr ⟨hh, List.mem_filter.mpr ⟨hh, ?_⟩, by simp [hconfig]⟩
    exact (touched_iff hnotified).mpr htouched
  rintro _ ⟨out, rfl, hout⟩
  have hsel : ∀ {g : Groups Bool H} {t : Task H (State H)} {h : H}, (∀ s h, t.when s h = !e.config) →
      (h ∈ (t.on ((groupByStatus e).selected ⟨e.loadbalancer,
        { (flush e).state with ipAddrOutput := out, isMaster := g }⟩)).selected
          ⟨e.loadbalancer, { (flush e).state with ipAddrOutput := out, isMaster := g }⟩ ↔
        h ∈ e.loadbalancer ∧ Touched e h) := by
    intro g t h hwhen
    rw [Task.mem_selected_on, Block.selected, List.mem_filter, hwhen, hconfig]
    exact ⟨fun hh => ⟨hh.1, (touched_iff hnotified).mp hh.2.1.2⟩,
      fun hh => ⟨hh.1, ⟨hh.1, (touched_iff hnotified).mpr hh.2⟩, rfl⟩⟩
  refine leadsOn_cons (leads_group
    (w := fun g => { (flush e).state with ipAddrOutput := out, isMaster := g })
    (k := fun h => shows isWord e.vipText (out h)) (fun _ _ => rfl) hnodup rfl (fun _ _ _ => rfl)
    (fun g hg => ⟨fun b h hh => ?_, fun _ h hh => absurd hh (by simp [flush])⟩)
    fun g hg => leads_nil ⟨out, g, rfl, fun b h hh => ?_, fun h hh htouched => ?_⟩) fun _ hq =>
      leadsOn_nil hq
  · rcases hg b h hh with hnone | ⟨hmem, hb⟩
    · exact absurd hnone List.not_mem_nil
    · obtain ⟨hh, htouched⟩ := (hsel fun _ _ => rfl).mp hmem
      exact ⟨hh, htouched, by rw [← hout h hh htouched]; exact hb⟩
  · rcases (hg b h).mp hh with hnone | ⟨hmem, hb⟩
    · exact absurd hnone List.not_mem_nil
    · obtain ⟨hh, htouched⟩ := (hsel fun _ _ => rfl).mp hmem
      exact ⟨hh, htouched, by rw [← hout h hh htouched]; exact hb⟩
  · refine (hg _ h).mpr (.inr ⟨(hsel fun _ _ => rfl).mpr ⟨hh, htouched⟩, ?_⟩)
    rw [hout h hh htouched]

/-! ## The backups -/

/-- The services that were started on these hosts. -/
def afterStart (e : Setup H A) (service : Service) (topic : Topic) (l : List H) (s : State H) :
    State H where
  ipAddrOutput := s.ipAddrOutput
  isMaster := s.isMaster
  notified := Function.update s.notified topic fun h =>
    s.notified topic h || l.contains h && e.starts service h
  stopped := Function.update s.stopped service fun h =>
    s.stopped service h && !(l.contains h && e.starts service h)
  waiting := Function.update s.waiting service fun h =>
    if l.contains h && e.starts service h then awaited service else s.waiting service h

theorem afterStart_nil (service : Service) (topic : Topic) (s : State H) :
    afterStart e service topic [] s = s := by
  simp [afterStart]

theorem afterStart_stopped_self {service : Service} {topic : Topic} {l : List H} {s : State H}
    (h : H) : (afterStart e service topic l s).stopped service h =
      (s.stopped service h && !(l.contains h && e.starts service h)) := by
  simp [afterStart]

theorem afterStart_stopped_of_ne {service service' : Service} {topic : Topic} {l : List H}
    {s : State H} (hne : service' ≠ service) :
    (afterStart e service topic l s).stopped service' = s.stopped service' :=
  Function.update_of_ne hne ..

theorem afterStart_snoc (service : Service) (topic : Topic) (l : List H) (s : State H) (h : H) :
    afterStart e service topic (l ++ [h]) s =
      if e.starts service h then
        { ((afterStart e service topic l s).setStopped service h false).setWaiting service h
            (awaited service) with
          notified := (afterStart e service topic l s).notified.notify topic h }
      else afterStart e service topic l s := by
  by_cases hstarts : e.starts service h = true
  · rw [if_pos hstarts]
    simp only [afterStart, State.setStopped, State.setWaiting, Notices.notify, Function.update_self,
      Function.update_idem, State.mk.injEq, true_and]
    refine ⟨congrArg _ (funext fun x => ?_), congrArg _ (funext fun x => ?_),
      congrArg _ (funext fun x => ?_)⟩
    · by_cases hx : x = h
      · simp [hx, hstarts]
      · simp [hx]
    · by_cases hx : x = h
      · simp [hx, hstarts]
      · simp [hx]
    · by_cases hx : x = h
      · simp [hx, hstarts]
      · simp [hx]
  · rw [if_neg hstarts]
    have hcontains : ∀ x, ((l ++ [h]).contains x && e.starts service x) =
        (l.contains x && e.starts service x) := by
      intro x
      by_cases hx : x = h
      · simp [hx, hstarts]
      · simp [hx]
    simp only [afterStart, hcontains]

theorem inGroup_iff {master : Bool} {s : State H} {h : H} :
    inGroup master s h = true ↔ h ∈ s.isMaster master := by
  rw [inGroup, Bool.and_eq_true, bne_iff_ne, List.contains_iff_mem]
  exact ⟨fun hh => hh.2, fun hh => ⟨List.ne_nil_of_mem hh, hh⟩⟩

/-- The hosts on which a handler that listens to restarts is run. -/
theorem mem_selected_restarts {p : Play H (State H)}
    (hrestart : ∀ service, p.state.notified (.restart service) = e.restarted service)
    {listen : List Service} {t : Task H (State H)} {h : H} :
    h ∈ (t.on ((handler (restarts listen) t).selected p)).selected p ↔
      h ∈ p.active ∧ (∃ topic ∈ listen, e.restarted topic h = true) ∧ t.when p.state h = true := by
  have hlisten : ((restarts listen).any fun topic => p.state.notified topic h) = true ↔
      ∃ topic ∈ listen, e.restarted topic h = true := by
    simp only [restarts, List.any_map, List.any_eq_true, Function.comp_apply, hrestart]
  rw [Task.mem_selected_on, Block.selected, List.mem_filter]
  constructor
  · rintro ⟨hactive, ⟨-, hnotified⟩, hwhen⟩
    exact ⟨hactive, hlisten.mp hnotified, hwhen⟩
  · rintro ⟨hactive, hnotified, hwhen⟩
    exact ⟨hactive, ⟨hactive, hlisten.mpr hnotified⟩, hwhen⟩

/-- What stopping a container does, on the backups or on the master. -/
theorem stopContainer_leads {Mid : State H → Prop} {master : Bool} {service : Service}
    {listen : List Service} {active : List H} {s : State H} (hnodup : active.Nodup)
    (hconfig : e.config = false)
    (hrestart : ∀ service, s.notified (.restart service) = e.restarted service)
    (hmid : ∀ f, (∀ h, f h = true → s.stopped service h = true ∨ h ∈ s.isMaster master) →
      Mid { s with stopped := Function.update s.stopped service f }) :
    LeadsOn Mid [stopContainer e master service listen] ⟨active, s⟩ fun q => ∃ f,
      q = ⟨active, { s with stopped := Function.update s.stopped service f }⟩ ∧
        ∀ h, f h = true ↔ s.stopped service h = true ∨ h ∈ active ∧ h ∈ s.isMaster master ∧
          ∃ topic ∈ listen, e.restarted topic h = true := by
  have hsel : ∀ {t : Task H (State H)} {h : H},
      h ∈ (t.on ((handler (restarts listen) t).selected ⟨active, s⟩)).selected ⟨active, s⟩ ↔
        h ∈ active ∧ (∃ topic ∈ listen, e.restarted topic h = true) ∧ t.when s h = true :=
    mem_selected_restarts hrestart
  have hwhen : ∀ h, (!e.config && inGroup master s h) = true ↔ h ∈ s.isMaster master := fun h => by
    rw [hconfig, Bool.not_false, Bool.true_and, inGroup_iff]
  have hstart : s = { s with stopped := Function.update s.stopped service (s.stopped service) } := by
    rw [Function.update_eq_self]
  refine leadsOn_cons (leads_register
    (w := fun f => { s with stopped := Function.update s.stopped service f }) (v := fun _ => true)
    (fun _ _ => rfl) hnodup hstart
    (fun h f _ => by simp [Task.on, State.setStopped]) (fun f hf => hmid f fun h hh => ?_)
    fun f hf hf' => leads_nil ⟨f, rfl, fun h => ?_⟩) fun _ hq => leadsOn_nil hq
  · refine or_iff_not_imp_right.mpr fun hout => ?_
    rwa [hf h fun hmem => hout ((hwhen h).mp (hsel.mp hmem).2.2)] at hh
  · by_cases hmem : h ∈ active ∧ (∃ topic ∈ listen, e.restarted topic h = true) ∧
        (!e.config && inGroup master s h) = true
    · rw [hf h (hsel.mpr hmem)]
      exact iff_of_true rfl (.inr ⟨hmem.1, (hwhen h).mp hmem.2.2, hmem.2.1⟩)
    · rw [hf' h fun hh => hmem (hsel.mp hh)]
      refine ⟨.inl, fun hh => hh.resolve_right fun hh => hmem ⟨hh.1, hh.2.2, (hwhen h).mpr hh.2.1⟩⟩

/-- What starting a container does; the hosts on which it fails leave the play. -/
theorem startContainer_leads {Mid : State H → Prop} {master : Bool} {service : Service}
    {listen : List Service} {topic : Topic} {active : List H} {s : State H} (hnodup : active.Nodup)
    (hconfig : e.config = false)
    (hrestart : ∀ service, s.notified (.restart service) = e.restarted service)
    (hmid : ∀ l, Mid (afterStart e service topic l s)) :
    LeadsOn Mid [startContainer e master service listen topic] ⟨active, s⟩ fun q => ∃ l,
      q = ⟨active.filter fun h => !l.contains h || e.starts service h,
          afterStart e service topic l s⟩ ∧
        ∀ h, h ∈ l ↔ h ∈ active ∧ (∃ topic ∈ listen, e.restarted topic h = true) ∧
          h ∈ s.isMaster master ∧ e.enabled service = true := by
  have hsel : ∀ {t : Task H (State H)} {h : H},
      h ∈ (t.on ((handler (restarts listen) t).selected ⟨active, s⟩)).selected ⟨active, s⟩ ↔
        h ∈ active ∧ (∃ topic ∈ listen, e.restarted topic h = true) ∧ t.when s h = true :=
    mem_selected_restarts hrestart
  refine leadsOn_cons (leads_try (J := fun done s' => s' = afterStart e service topic done s)
    (fun _ _ _ _ _ => rfl) hnodup (afterStart_nil service topic s).symm ?_ ?_ ?_ ?_)
      fun _ hq => leadsOn_nil hq
  · rintro done h _ - - rfl
    exact (afterStart_snoc service topic done s h).symm
  · rintro done _ rfl
    exact hmid done
  · rintro done _ hperm rfl -
    refine leads_nil ⟨done, ?_, fun h => ?_⟩
    · rw [Task.survivors]
      congr 1
      refine List.filter_congr fun h _ => ?_
      rw [hperm.contains_eq]
    · rw [hperm.mem_iff]
      refine hsel.trans ?_
      rw [Bool.and_eq_true, hconfig, Bool.not_false, Bool.true_and, inGroup_iff]
  · rintro _ _ - - hfatal
    exact absurd hfatal Bool.false_ne_true

/-- What waiting for a service does: on the backups, one that does not answer stops the play. -/
theorem waitStart_leads {Mid : State H → Prop} {service : Service} {active : List H} {s : State H}
    (hnodup : active.Nodup)
    (hmid : ∀ f, Mid { s with waiting := Function.update s.waiting service f }) :
    LeadsOn Mid [waitStart e false service] ⟨active, s⟩ fun q => ∃ f,
      (q = ⟨[], { s with waiting := Function.update s.waiting service f }⟩ ∧ ∃ h ∈ active,
        s.notified (.waitStart false service) h = true ∧ e.answers service h = false) ∨
      q = ⟨active, { s with waiting := Function.update s.waiting service f }⟩ ∧ ∀ h,
        (h ∈ active → s.notified (.waitStart false service) h = true →
          e.answers service h = true ∧ f h = false) ∧
        (¬(h ∈ active ∧ s.notified (.waitStart false service) h = true) →
          f h = s.waiting service h) := by
  have hsel : ∀ {t : Task H (State H)} {h : H}, (∀ s h, t.when s h = true) →
      (h ∈ (t.on ((waitStart e false service).selected ⟨active, s⟩)).selected ⟨active, s⟩ ↔
        h ∈ active ∧ s.notified (.waitStart false service) h = true) := by
    intro t h hwhen
    rw [Task.mem_selected_on, Block.selected, List.mem_filter, hwhen]
    simp [waitStart, handler]
  refine leadsOn_cons (leads_try (J := fun done s' =>
    ∃ f, s' = { s with waiting := Function.update s.waiting service f } ∧
      (∀ h ∈ done, e.answers service h = true → f h = false) ∧
      ∀ h ∉ done, f h = s.waiting service h) (fun _ _ _ _ _ => rfl) hnodup
    ⟨s.waiting service, by simp, by simp⟩ ?_ ?_ ?_ ?_) fun _ hq => leadsOn_nil hq
  · rintro done h _ - - ⟨f, rfl, hdone, hrest⟩
    by_cases hanswers : e.answers service h = true
    · refine ⟨Function.update f h false, ?_, fun x hx _ => ?_, fun x hx => ?_⟩
      · simp [Task.on, hanswers, State.setWaiting]
      · by_cases hxh : x = h
        · simp [hxh]
        · rw [Function.update_of_ne hxh]
          exact hdone x (by simpa [hxh] using hx) ‹_›
      · rw [List.mem_append, List.mem_singleton, not_or] at hx
        rw [Function.update_of_ne hx.2]
        exact hrest x hx.1
    · refine ⟨f, ?_, fun x hx hx' => ?_, fun x hx => hrest x fun hmem => hx (by simp [hmem])⟩
      · simp [Task.on, hanswers]
      · rcases List.mem_append.mp hx with hx | hx
        · exact hdone x hx hx'
        · rw [List.mem_singleton.mp hx] at hx'
          exact absurd hx' hanswers
  · rintro done _ ⟨f, rfl, -⟩
    exact hmid f
  · rintro done _ hperm ⟨f, rfl, hdone, hrest⟩ hall
    have hall := hall rfl
    refine leads_nil ⟨f, .inr ⟨?_, fun h => ⟨fun hh hh' => ?_, fun hh => hrest h fun hmem => ?_⟩⟩⟩
    · rw [survivors_eq_iff.mpr hall]
    · have hanswers := hall h ((hsel fun _ _ => rfl).mpr ⟨hh, hh'⟩)
      exact ⟨hanswers, hdone h (hperm.mem_iff.mpr ((hsel fun _ _ => rfl).mpr ⟨hh, hh'⟩)) hanswers⟩
    · exact hh ((hsel fun _ _ => rfl).mp (hperm.mem_iff.mp hmem))
  · rintro done _ - ⟨f, rfl, -⟩ - ⟨h, hh, hfail⟩
    obtain ⟨hactive, hnotified⟩ := (hsel fun _ _ => rfl).mp hh
    exact ⟨f, .inl ⟨rfl, h, hactive, hnotified, hfail⟩⟩

/-- These services have been stopped on the backups. -/
structure Stopping (e : Setup H A) (g : Groups Bool H) (done : List Service)
    (p : Play H (State H)) : Prop where
  active : p.active = e.loadbalancer
  group : p.state.isMaster = g
  notified : p.state.notified = (flush e).state.notified
  waiting : ∀ service h, p.state.waiting service h = false
  stopped : ∀ service h, p.state.stopped service h = true ↔
    service ∈ done ∧ h ∈ g false ∧ Restarts e service h

/-- These services have been started on the backups. -/
structure Stage (e : Setup H A) (g : Groups Bool H) (started : List Service)
    (p : Play H (State H)) : Prop where
  nodup : p.active.Nodup
  active : ∀ h, h ∈ p.active ↔
    h ∈ e.loadbalancer ∧ (h ∈ g false → ∀ service ∈ started, ¬FailsStart e service h)
  group : p.state.isMaster = g
  restart : ∀ service, p.state.notified (.restart service) = e.restarted service
  quiet : ∀ service ∉ started, ∀ h, p.state.notified (.waitStart false service) h = false
  untouched : ∀ service h, p.state.stopped service h = true → h ∈ g false
  stopped : ∀ service ∉ started, ∀ h,
    p.state.stopped service h = true ↔ h ∈ g false ∧ Restarts e service h
  ready : ∀ service ∈ started, e.enabled service = true → ∀ h ∈ p.active,
    p.state.stopped service h = false
  lost : ∀ h ∈ e.loadbalancer, h ∉ p.active →
    ∃ service, e.enabled service = true ∧ p.state.stopped service h = true

/-- None of the services is waited for. -/
def Settled (s : State H) : Prop := ∀ service h, s.waiting service h = false

/-- The backups among the hosts that are restarted. -/
def Backs (e : Setup H A) (g : Groups Bool H) : Prop :=
  ∀ h, h ∈ g false ↔ h ∈ e.loadbalancer ∧ Touched e h ∧ e.vip ∉ e.addresses h

section Backups

variable {g : Groups Bool H}

theorem stop_leads (hnodup : e.loadbalancer.Nodup) (hconfig : e.config = false)
    (hg : Divided e g) {service : Service} {done : List Service} {p : Play H (State H)}
    (hp : Stopping e g done p) (hnew : service ∉ done) :
    LeadsOn (Before e) [stopContainer e false service (listened service)] p
      (Stopping e g (service :: done)) := by
  obtain ⟨_, s⟩ := p
  obtain ⟨rfl, rfl, hnotified, hwaiting, hstopped⟩ := hp
  have hstopped : ∀ service h, s.stopped service h = true ↔
    service ∈ done ∧ h ∈ s.isMaster false ∧ Restarts e service h := hstopped
  have hrestart : ∀ service, s.notified (.restart service) = e.restarted service := fun _ => by
    rw [show s.notified = _ from hnotified]
    rfl
  refine LeadsOn.mono (stopContainer_leads hnodup hconfig hrestart fun f hf => ⟨hg, ?_⟩) ?_
  · intro service' h hh
    have hh : Function.update s.stopped service f service' h = true := hh
    by_cases hservice : service' = service
    · subst hservice
      rw [Function.update_self] at hh
      exact (hf h hh).elim (fun hh => ((hstopped _ h).mp hh).2.1) id
    · rw [Function.update_of_ne hservice] at hh
      exact ((hstopped service' h).mp hh).2.1
  · rintro _ ⟨f, rfl, hf⟩
    refine ⟨rfl, rfl, hnotified, hwaiting, fun service' h => ?_⟩
    change Function.update s.stopped service f service' h = true ↔ _
    by_cases hservice : service' = service
    · subst hservice
      rw [Function.update_self, hf, hstopped]
      constructor
      · rintro (⟨hmem, -⟩ | ⟨-, hmem, hrestarts⟩)
        · exact absurd hmem hnew
        · exact ⟨List.mem_cons_self, hmem, hrestarts⟩
      · rintro ⟨-, hmem, hrestarts⟩
        exact .inr ⟨(hg false h hmem).1, hmem, hrestarts⟩
    · rw [Function.update_of_ne hservice, hstopped, List.mem_cons, or_iff_right hservice]

omit [DecidableEq H] in
theorem Stopping.stage (hnodup : e.loadbalancer.Nodup) {done : List Service}
    {p : Play H (State H)} (hp : Stopping e g done p) (hdone : ∀ service, service ∈ done) :
    Stage e g [] p where
  nodup := by rwa [hp.active]
  active h := by
    rw [hp.active]
    exact ⟨fun hh => ⟨hh, fun _ _ hmem => absurd hmem List.not_mem_nil⟩, fun hh => hh.1⟩
  group := hp.group
  restart service := by
    rw [hp.notified]
    rfl
  quiet service _ h := by
    rw [hp.notified]
    rfl
  untouched service h hh := ((hp.stopped service h).mp hh).2.1
  stopped service _ h := by rw [hp.stopped, and_iff_right (hdone service)]
  ready _ hmem := absurd hmem List.not_mem_nil
  lost h hh hout := absurd (hp.active ▸ hh) hout

/-- The hosts that stay in the play when a service is started on some of them. -/
theorem mem_kept {service : Service} {active l : List H}
    (hl : ∀ h, h ∈ l ↔ h ∈ active ∧ Restarts e service h ∧ h ∈ g false ∧ e.enabled service = true)
    (h : H) : h ∈ active.filter (fun h => !l.contains h || e.starts service h) ↔
      h ∈ active ∧ (h ∈ g false → ¬FailsStart e service h) := by
  rw [List.mem_filter, Bool.or_eq_true, Bool.not_eq_true', ← Bool.not_eq_true,
    List.contains_iff_mem, hl]
  refine and_congr_right fun hh => ⟨?_, fun hfails => ?_⟩
  · rintro (hout | hstarts) hback ⟨henabled, hrestarts, hfail⟩
    · exact hout ⟨hh, hrestarts, hback, henabled⟩
    · exact absurd hstarts (by simp [hfail])
  · refine or_iff_not_imp_left.mpr fun hin => ?_
    obtain ⟨-, hrestarts, hback, henabled⟩ := not_not.mp hin
    by_contra hfail
    exact hfails hback ⟨henabled, hrestarts, by simpa using hfail⟩

/-- A host that a start takes out of the play is left with a stopped service. -/
theorem Stage.start_lost {started : List Service} {active l : List H} {s : State H}
    (hp : Stage e g started ⟨active, s⟩) {service : Service} (hnew : service ∉ started)
    {topic : Topic}
    (hl : ∀ h, h ∈ l ↔ h ∈ active ∧ Restarts e service h ∧ h ∈ g false ∧ e.enabled service = true)
    {h : H} (hh : h ∈ e.loadbalancer)
    (hout : h ∉ active.filter fun h => !l.contains h || e.starts service h) :
    ∃ service', e.enabled service' = true ∧
      (afterStart e service topic l s).stopped service' h = true := by
  by_cases hmem : h ∈ active
  · have hfails : ¬(h ∈ g false → ¬FailsStart e service h) := fun hok =>
      hout ((mem_kept hl h).mpr ⟨hmem, hok⟩)
    rw [Classical.not_imp, not_not] at hfails
    obtain ⟨hback, henabled, hrestarts, hfail⟩ := hfails
    refine ⟨service, henabled, ?_⟩
    rw [afterStart_stopped_self, hfail, show s.stopped service h = true from
      (hp.stopped service hnew h).mpr ⟨hback, hrestarts⟩]
    simp
  · obtain ⟨service', henabled, hstill⟩ := hp.lost h hh hmem
    refine ⟨service', henabled, ?_⟩
    by_cases hservice : service' = service
    · subst hservice
      rw [afterStart_stopped_self, show s.stopped service' h = true from hstill]
      simp [hl, hmem]
    · rw [afterStart_stopped_of_ne hservice]
      exact hstill

/-- A host leaves the play when its start fails, with the container still stopped. -/
theorem Stage.start {started : List Service} {active l : List H} {s : State H}
    (hp : Stage e g started ⟨active, s⟩) {service : Service} (hnew : service ∉ started)
    {topic : Topic} (htopic : topic = .waitStart false service ∨ topic = .waitVip)
    (hl : ∀ h, h ∈ l ↔ h ∈ active ∧ Restarts e service h ∧ h ∈ g false ∧ e.enabled service = true) :
    Stage e g (service :: started) ⟨active.filter fun h => !l.contains h || e.starts service h,
      afterStart e service topic l s⟩ := by
  have hactive : ∀ h, h ∈ active ↔ _ := hp.active
  constructor
  · exact hp.nodup.filter _
  · intro h
    rw [mem_kept hl, hactive, and_assoc, ← imp_and, List.forall_mem_cons, and_comm (a := ∀ _, _)]
  · exact hp.group
  · intro service'
    refine Eq.trans ?_ (hp.restart service')
    refine Function.update_of_ne ?_ ..
    rcases htopic with rfl | rfl
    · exact Topic.noConfusion
    · exact Topic.noConfusion
  · intro service' hservice h
    rw [List.mem_cons, not_or] at hservice
    refine Eq.trans (congrFun (Function.update_of_ne ?_ ..) h) (hp.quiet service' hservice.2 h)
    rcases htopic with rfl | rfl
    · simp [hservice.1]
    · exact Topic.noConfusion
  · intro service' h hh
    change (afterStart e service topic l s).stopped service' h = true at hh
    by_cases hservice : service' = service
    · rw [hservice, afterStart_stopped_self, Bool.and_eq_true] at hh
      exact hp.untouched service h hh.1
    · rw [afterStart_stopped_of_ne hservice] at hh
      exact hp.untouched service' h hh
  · intro service' hservice h
    rw [List.mem_cons, not_or] at hservice
    rw [← hp.stopped service' hservice.2 h]
    change (afterStart e service topic l s).stopped service' h = true ↔ _
    rw [afterStart_stopped_of_ne hservice.1]
  · intro service' hservice henabled h hleft
    change (afterStart e service topic l s).stopped service' h = false
    obtain ⟨hh, hfails⟩ := (mem_kept hl h).mp hleft
    by_cases hne : service' = service
    · subst hne
      rw [afterStart_stopped_self, Bool.and_eq_false_imp, Bool.not_eq_false', Bool.and_eq_true]
      intro hstopped
      obtain ⟨hback, hrestarts⟩ := (hp.stopped service' hnew h).mp hstopped
      refine ⟨List.contains_iff_mem.mpr ((hl h).mpr ⟨hh, hrestarts, hback, henabled⟩), ?_⟩
      by_contra hfail
      exact hfails hback ⟨henabled, hrestarts, by simpa using hfail⟩
    · rw [afterStart_stopped_of_ne hne]
      exact hp.ready service' (List.mem_of_ne_of_mem hne hservice) henabled h hh
  · exact fun h hh hout => hp.start_lost hnew hl hh hout

omit [DecidableEq H] in
theorem Stage.before (hg : Divided e g) {started : List Service} {p : Play H (State H)}
    (hp : Stage e g started p) : Before e p.state := by
  have hgroup : p.state.isMaster = g := hp.group
  exact ⟨by rwa [hgroup], by rw [hgroup]; exact hp.untouched⟩

omit [DecidableEq H] in
theorem Stage.wait {started : List Service} {active : List H} {s : State H}
    (hp : Stage e g started ⟨active, s⟩) (w : Service → H → Bool) :
    Stage e g started ⟨active, { s with waiting := w }⟩ :=
  ⟨hp.nodup, hp.active, hp.group, hp.restart, hp.quiet, hp.untouched, hp.stopped, hp.ready, hp.lost⟩

omit [DecidableEq H] in
theorem Restarts.touched {service : Service} {h : H} (hr : Restarts e service h) : Touched e h := by
  obtain ⟨topic, -, hr⟩ := hr
  exact ⟨topic, hr⟩

/-- A service is started on the backups. -/
theorem start_leads (hconfig : e.config = false) (hg : Divided e g) {started : List Service}
    {active : List H} {s : State H} (hp : Stage e g started ⟨active, s⟩) {service : Service}
    (hnew : service ∉ started) {topic : Topic}
    (htopic : topic = .waitStart false service ∨ topic = .waitVip) :
    LeadsOn (Before e) [startContainer e false service (listened service) topic] ⟨active, s⟩
      fun q => ∃ l, (∀ h, h ∈ l ↔ h ∈ active ∧ Restarts e service h ∧ h ∈ g false ∧
          e.enabled service = true) ∧
        q = ⟨active.filter fun h => !l.contains h || e.starts service h,
          afterStart e service topic l s⟩ ∧ Stage e g (service :: started) q := by
  have hgroup : s.isMaster = g := hp.group
  refine LeadsOn.mono (startContainer_leads hp.nodup hconfig hp.restart fun l => ⟨?_, ?_⟩) ?_
  · change Divided e s.isMaster
    rwa [hgroup]
  · intro service' h hh
    change Function.update s.stopped service _ service' h = true at hh
    change h ∈ s.isMaster false
    rw [hgroup]
    by_cases hservice : service' = service
    · subst hservice
      rw [Function.update_self, Bool.and_eq_true] at hh
      exact hp.untouched service' h hh.1
    · rw [Function.update_of_ne hservice] at hh
      exact hp.untouched service' h hh
  · rintro _ ⟨l, rfl, hl⟩
    rw [hgroup] at hl
    exact ⟨l, hl, rfl, hp.start hnew htopic hl⟩

/-- A service is started on the backups and waited for. -/
theorem start_wait_leads (hconfig : e.config = false) (hg : Divided e g) (hback : Backs e g)
    {started : List Service} {p : Play H (State H)} (hp : Stage e g started p)
    (hsettled : Settled p.state) {service : Service} (hnew : service ∉ started) :
    LeadsOn (Before e) [startContainer e false service (listened service)
        (.waitStart false service), waitStart e false service] p fun q =>
      (q.active = [] ∧ Before e q.state ∧ StopsAt e started service) ∨
        Stage e g (service :: started) q ∧ Settled q.state ∧ ¬StopsAt e started service := by
  obtain ⟨active, s⟩ := p
  refine leadsOn_append (start_leads hconfig hg hp hnew (.inl rfl)) ?_
  rintro _ ⟨l, hl, rfl, hstage⟩
  have hnotified : ∀ h, (afterStart e service (.waitStart false service) l s).notified
      (.waitStart false service) h = true ↔ h ∈ l ∧ e.starts service h = true := by
    intro h
    have hquiet : s.notified (.waitStart false service) h = false := hp.quiet service hnew h
    simp [afterStart, hquiet]
  have hactive : ∀ h, h ∈ active ↔ _ := hp.active
  refine LeadsOn.mono (waitStart_leads hstage.nodup fun f =>
    (hstage.wait _).before hg) ?_
  rintro _ ⟨f, ⟨rfl, h, hh, hwait, hfail⟩ | ⟨rfl, hf⟩⟩
  · refine .inl ⟨rfl, (hstage.wait _).before hg, h, ?_⟩
    obtain ⟨hmem, hstarts⟩ := (hnotified h).mp hwait
    obtain ⟨hmem, hrestarts, hside, henabled⟩ := (hl h).mp hmem
    obtain ⟨hmem, hstarted⟩ := (hactive h).mp hmem
    exact ⟨hmem, ((hback h).mp hside).2.2, hstarted hside, henabled, hrestarts, hstarts, hfail⟩
  · refine .inr ⟨hstage.wait _, fun service' h => ?_, ?_⟩
    · change Function.update (afterStart e service (.waitStart false service) l s).waiting service f
        service' h = false
      by_cases hservice : service' = service
      · subst hservice
        rw [Function.update_self]
        by_cases hwait : h ∈ l ∧ e.starts service' h = true
        · refine ((hf h).1 (List.mem_filter.mpr ⟨((hl h).mp hwait.1).1, ?_⟩)
            ((hnotified h).mpr hwait)).2
          rw [hwait.2, Bool.or_true]
        · rw [(hf h).2 fun hh => hwait ((hnotified h).mp hh.2)]
          simp only [afterStart, Function.update_self]
          rw [if_neg (by simpa using hwait)]
          exact hsettled service' h
      · rw [Function.update_of_ne hservice]
        simp only [afterStart, Function.update_of_ne hservice]
        exact hsettled service' h
    · rintro ⟨h, hh, hvip, hstarted, henabled, hrestarts, hstarts, hfail⟩
      have hside : h ∈ g false := (hback h).mpr ⟨hh, hrestarts.touched, hvip⟩
      have hmem : h ∈ active := (hactive h).mpr ⟨hh, fun _ => hstarted⟩
      have hin : h ∈ l := (hl h).mpr ⟨hmem, hrestarts, hside, henabled⟩
      have hanswers := ((hf h).1 (List.mem_filter.mpr ⟨hmem, by rw [hstarts, Bool.or_true]⟩)
        ((hnotified h).mpr ⟨hin, hstarts⟩)).1
      rw [hfail] at hanswers
      exact Bool.false_ne_true hanswers

theorem backup_leads (hnodup : e.loadbalancer.Nodup) (hconfig : e.config = false)
    (hg : Divided e g) (hback : Backs e g) {p : Play H (State H)} (hp : Stopping e g [] p) :
    LeadsOn (Before e) (backupHandlers e) p fun q =>
      (q.active = [] ∧ Before e q.state ∧ Stops e) ∨
        Stage e g [.keepalived, .proxysql, .haproxy] q ∧ Settled q.state ∧ ¬Stops e := by
  change LeadsOn (Before e) ([stopBackupKeepalived e] ++ ([stopBackupHaproxy e] ++
    ([stopBackupProxysql e] ++ ([startBackupHaproxy e, waitStart e false .haproxy] ++
      ([startBackupProxysql e, waitStart e false .proxysql] ++ [startBackupKeepalived e]))))) p _
  refine leadsOn_append (stop_leads hnodup hconfig hg hp (by simp)) fun q hq => ?_
  refine leadsOn_append (stop_leads hnodup hconfig hg hq (by simp)) fun q hq => ?_
  refine leadsOn_append (stop_leads hnodup hconfig hg hq (by simp)) fun q hq => ?_
  have hstage : Stage e g [] q := hq.stage hnodup fun service => by cases service <;> simp
  refine leadsOn_append (start_wait_leads hconfig hg hback hstage hq.waiting (by simp)) ?_
  rintro ⟨active, s⟩ (⟨rfl, hbefore, hstops⟩ | ⟨hstage, hsettled, hhaproxy⟩)
  · exact leadsOn_stopped (.inl ⟨rfl, hbefore, .inl hstops⟩)
  refine leadsOn_append (start_wait_leads hconfig hg hback hstage hsettled (by simp)) ?_
  rintro ⟨active, s⟩ (⟨rfl, hbefore, hstops⟩ | ⟨hstage, hsettled, hproxysql⟩)
  · exact leadsOn_stopped (.inl ⟨rfl, hbefore, .inr hstops⟩)
  refine LeadsOn.mono (start_leads hconfig hg hstage (by simp) (.inr rfl)) ?_
  rintro _ ⟨l, -, rfl, hstage⟩
  refine .inr ⟨hstage, fun service h => ?_, not_or.mpr ⟨hhaproxy, hproxysql⟩⟩
  have hold : s.waiting service h = false := hsettled service h
  by_cases hservice : service = .keepalived
  · subst hservice
    simp [afterStart, awaited, hold]
  · simp [afterStart, Function.update_of_ne hservice, hold]

omit [DecidableEq H] in
/-- The hosts that are left are those that can serve the VIP in place of the master. -/
theorem Stage.ready_iff (hback : Backs e g) {p : Play H (State H)}
    (hp : Stage e g [.keepalived, .proxysql, .haproxy] p) (hsettled : Settled p.state) {x : H}
    (hx : x ∈ e.loadbalancer) (hvip : e.vip ∉ e.addresses x) :
    Ready e p.state x ↔ ∀ service, ¬FailsStart e service x := by
  have hall : ∀ service, service ∈ [Service.keepalived, .proxysql, .haproxy] := fun service => by
    cases service <;> simp
  constructor
  · intro hready service hfails
    have hin : x ∈ p.active := by
      by_contra hout
      obtain ⟨service', henabled, hstopped⟩ := hp.lost x hx hout
      rw [(hready service' henabled).1] at hstopped
      exact Bool.false_ne_true hstopped
    exact ((hp.active x).mp hin).2 ((hback x).mpr ⟨hx, hfails.2.1.touched, hvip⟩) service
      (hall service) hfails
  · intro hfails service henabled
    have hin : x ∈ p.active := (hp.active x).mpr ⟨hx, fun _ service _ => hfails service⟩
    exact ⟨hp.ready service (hall service) henabled x hin, hsettled service x⟩

end Backups

/-! ## The master is restarted -/

/-- Nothing of this changes while only the master is restarted. -/
structure Kept (g : Groups Bool H) (x : H) (services : Service → Prop) (s : State H) : Prop where
  group : s.isMaster = g
  stopped : ∀ service, services service → s.stopped service x = false
  waiting : ∀ service, services service → s.waiting service x = false

theorem update_other {f : Service → H → Bool} {x h : H} (hne : x ≠ h) (service service' : Service)
    (b : Bool) : Function.update f service (Function.update (f service) h b) service' x =
      f service' x := by
  by_cases hservice : service' = service
  · subst hservice
    rw [Function.update_self, Function.update_of_ne hne]
  · rw [Function.update_of_ne hservice]

theorem update_off {f : Service → H → Bool} {x h : H} {service service' : Service}
    (hf : f service' x = false) :
    Function.update f service (Function.update (f service) h false) service' x = false := by
  by_cases hx : x = h
  · subst hx
    by_cases hservice : service' = service
    · subst hservice
      rw [Function.update_self, Function.update_self]
    · rwa [Function.update_of_ne hservice]
  · rwa [update_other hx]

section Master

variable {g : Groups Bool H} {x h : H} {services : Service → Prop} {s₀ s : State H}

theorem stopContainer_keeps {master : Bool} (hx : x ∉ g master) {service : Service}
    {listen : List Service} (hs₀ : s₀.isMaster = g) {t : Task H (State H)}
    (ht : t ∈ (stopContainer e master service listen).tasks) (hwhen : t.when s₀ h = true)
    (hs : Kept g x services s) : Kept g x services (t.run h s) := by
  rw [List.mem_singleton.mp ht] at hwhen ⊢
  have hne : x ≠ h := by
    rintro rfl
    exact hx (hs₀ ▸ inGroup_iff.mp (Bool.and_eq_true_iff.mp hwhen).2)
  exact ⟨hs.group, fun service' hservice => (update_other hne ..).trans (hs.stopped service' hservice),
    hs.waiting⟩

theorem startContainer_keeps {master : Bool} (hx : x ∉ g master) {service : Service}
    {listen : List Service} {topic : Topic} (hs₀ : s₀.isMaster = g) {t : Task H (State H)}
    (ht : t ∈ (startContainer e master service listen topic).tasks) (hwhen : t.when s₀ h = true)
    (hs : Kept g x services s) : Kept g x services (t.run h s) := by
  rw [List.mem_singleton.mp ht] at hwhen ⊢
  have hne : x ≠ h := by
    rintro rfl
    refine hx (hs₀ ▸ inGroup_iff.mp (Bool.and_eq_true_iff.mp (Bool.and_eq_true_iff.mp hwhen).1).2)
  by_cases hstarts : e.starts service h = true
  · simp only [if_pos hstarts]
    exact ⟨hs.group, fun service' hservice => (update_other hne ..).trans (hs.stopped service' hservice),
      fun service' hservice => (update_other hne ..).trans (hs.waiting service' hservice)⟩
  · simp only [if_neg hstarts]
    exact hs

theorem waitStart_keeps {master : Bool} {service : Service} {t : Task H (State H)}
    (ht : t ∈ (waitStart e master service).tasks) (hs : Kept g x services s) :
    Kept g x services (t.run h s) := by
  rw [List.mem_singleton.mp ht]
  by_cases hanswers : e.answers service h = true
  · simp only [if_pos hanswers]
    exact ⟨hs.group, hs.stopped, fun service' hservice => update_off (hs.waiting service' hservice)⟩
  · simp only [if_neg hanswers]
    exact hs

omit [DecidableEq H] in
theorem waitVip_keeps {service : Service} {t : Task H (State H)}
    (ht : t ∈ (waitVip e service).tasks) (hs : Kept g x services s) :
    Kept g x services (t.run h s) := by
  rwa [List.mem_singleton.mp ht]

theorem backupHandlers_keep (hx : x ∉ g false) : ∀ b ∈ backupHandlers e, ∀ t ∈ b.tasks,
    ∀ s₀ h s, Kept g x services s₀ → t.when s₀ h = true → Kept g x services s →
      Kept g x services (t.run h s) := by
  intro b hb t ht s₀ h s hs₀ hwhen hs
  simp only [backupHandlers, List.mem_cons, List.not_mem_nil, or_false] at hb
  rcases hb with rfl | rfl | rfl | rfl | rfl | rfl | rfl | rfl
  · exact stopContainer_keeps hx hs₀.group ht hwhen hs
  · exact stopContainer_keeps hx hs₀.group ht hwhen hs
  · exact stopContainer_keeps hx hs₀.group ht hwhen hs
  · exact startContainer_keeps hx hs₀.group ht hwhen hs
  · exact waitStart_keeps ht hs
  · exact startContainer_keeps hx hs₀.group ht hwhen hs
  · exact waitStart_keeps ht hs
  · exact startContainer_keeps hx hs₀.group ht hwhen hs

/-- The restart of the master leaves the other hosts alone. -/
theorem masterHandlers_keep (hx : x ∉ g true) : ∀ b ∈ masterHandlers e, ∀ t ∈ b.tasks, ∀ s₀ h s,
    Kept g x services s₀ → t.when s₀ h = true → Kept g x services s →
      Kept g x services (t.run h s) := by
  intro b hb t ht s₀ h s hs₀ hwhen hs
  simp only [masterHandlers, List.mem_cons, List.not_mem_nil, or_false] at hb
  rcases hb with rfl | rfl | rfl | rfl | rfl | rfl | rfl | rfl | rfl | rfl
  · exact stopContainer_keeps hx hs₀.group ht hwhen hs
  · exact stopContainer_keeps hx hs₀.group ht hwhen hs
  · exact stopContainer_keeps hx hs₀.group ht hwhen hs
  · exact startContainer_keeps hx hs₀.group ht hwhen hs
  · exact waitStart_keeps ht hs
  · exact startContainer_keeps hx hs₀.group ht hwhen hs
  · exact waitStart_keeps ht hs
  · exact startContainer_keeps hx hs₀.group ht hwhen hs
  · exact waitVip_keeps ht hs
  · exact waitVip_keeps ht hs

/-- The containers of these services have been stopped on the master, if they are restarted. -/
structure Halting (e : Setup H A) (m : H) (s₀ : State H) (done : List Service)
    (p : Play H (State H)) : Prop where
  nodup : p.active.Nodup
  active : m ∈ p.active
  group : m ∈ p.state.isMaster true
  restart : ∀ service, p.state.notified (.restart service) = e.restarted service
  stopped : ∀ service ∈ done, e.restarted service m = true → p.state.stopped service m = true
  ready : ∀ x, Ready e p.state x → Ready e s₀ x

theorem halt_leads (hconfig : e.config = false) {m : H} {done : List Service}
    {p : Play H (State H)} (hp : Halting e m s₀ done p) {service : Service} {listen : List Service}
    (hlisten : service ∈ listen) :
    LeadsOn (fun _ => True) [stopContainer e true service listen] p
      (Halting e m s₀ (service :: done)) := by
  obtain ⟨active, s⟩ := p
  refine LeadsOn.mono (stopContainer_leads hp.nodup hconfig hp.restart fun _ _ => trivial) ?_
  rintro _ ⟨f, rfl, hf⟩
  have hkept : ∀ service' h, s.stopped service' h = true →
      Function.update s.stopped service f service' h = true := by
    intro service' h hh
    by_cases hservice : service' = service
    · subst hservice
      rw [Function.update_self]
      exact (hf h).mpr (.inl hh)
    · rwa [Function.update_of_ne hservice]
  refine ⟨hp.nodup, hp.active, hp.group, hp.restart, fun service' hservice hr => ?_,
    fun x hx => hp.ready x fun service' henabled => ⟨?_, (hx service' henabled).2⟩⟩
  · by_cases heq : service' = service
    · subst heq
      refine (congrFun (Function.update_self ..) m).trans ?_
      exact (hf m).mpr (.inr ⟨hp.active, hp.group, service', hlisten, hr⟩)
    · exact hkept service' m (hp.stopped service' (List.mem_of_ne_of_mem heq hservice) hr)
  · by_contra hh
    have hstill := hkept service' x (by simpa using hh)
    rw [show Function.update s.stopped service f service' x = false from (hx service' henabled).1]
      at hstill
    exact Bool.false_ne_true hstill

end Master

/-! ## What serves the VIP -/

section Served

variable {g : Groups Bool H} {m : H}

omit [DecidableEq H] in
theorem Told.shows_iff {h : H} (htold : Told e h) :
    shows isWord e.vipText (ipAddrShow e h) = true ↔ e.vip ∈ e.addresses h :=
  ipAddrShow_shows.trans htold

omit [DecidableEq H] in
/-- Addresses with as many dots as the VIP are told apart; those of IPv4 are. -/
theorem told_of_dotted {h : H} (hvip : ∀ a, e.shown a = e.vipText ↔ a = e.vip)
    (hbounded : Bounded isWord e.vipText)
    (hdotted : ∀ a ∈ e.addresses h, (∀ c ∈ e.shown a, isWord c = true ∨ c = '.') ∧
      (e.shown a).count '.' = e.vipText.count '.') : Told e h := by
  constructor
  · rintro ⟨a, ha, hshows⟩
    obtain ⟨htext, hcount⟩ := hdotted a ha
    rwa [← (hvip a).mp ((shows_iff_eq hbounded htext hcount).mp hshows)]
  · intro hmem
    obtain ⟨htext, hcount⟩ := hdotted _ hmem
    exact ⟨_, hmem, (shows_iff_eq hbounded htext hcount).mpr ((hvip _).mpr rfl)⟩

omit [DecidableEq H] in
theorem Divided.grouped (htold : ∀ h ∈ e.loadbalancer, Touched e h → Told e h) {s : State H}
    (hs : Divided e s.isMaster) : Grouped e s := by
  intro h b hh
  obtain ⟨hmem, htouched, hb⟩ := hs b h hh
  rw [← (htold h hmem htouched).shows_iff, hb]

omit [DecidableEq H] in
theorem Dividing.told (hg : Dividing e g) {s : State H} (hs : s.isMaster = g) (hgrouped : Grouped e s)
    {h : H} (hh : h ∈ e.loadbalancer) (htouched : Touched e h) : Told e h :=
  ipAddrShow_shows.symm.trans (hgrouped h _ (hs ▸ hg.all h hh htouched))

omit [DecidableEq H] in
theorem Dividing.backs (hg : Dividing e g)
    (htold : ∀ h ∈ e.loadbalancer, Touched e h → Told e h) : Backs e g := by
  intro h
  constructor
  · intro hh
    obtain ⟨hmem, htouched, hb⟩ := hg.groups false h hh
    refine ⟨hmem, htouched, fun hvip => ?_⟩
    rw [(htold h hmem htouched).shows_iff.mpr hvip] at hb
    exact Bool.false_ne_true hb.symm
  · rintro ⟨hmem, htouched, hvip⟩
    have hb := hg.all h hmem htouched
    rwa [Bool.eq_false_iff.mpr fun hb => hvip ((htold h hmem htouched).shows_iff.mp hb)] at hb

omit [DecidableEq H] in
theorem Before.safe (htold : ∀ h ∈ e.loadbalancer, Touched e h → Told e h) {s : State H}
    (hs : Before e s) : Grouped e s ∧ Served e s := by
  refine ⟨hs.groups.grouped htold, ?_⟩
  rintro m - hvip ⟨service, hstopped⟩
  have hmem := hs.untouched service m hstopped
  exact absurd ((hs.groups.grouped htold m false hmem).mpr hvip) Bool.false_ne_true

omit [DecidableEq H] in
theorem Kept.safe (hg : Dividing e g) (htold : ∀ h ∈ e.loadbalancer, Touched e h → Told e h)
    (hmaster : ∀ h ∈ e.loadbalancer, e.vip ∈ e.addresses h ↔ h = m) {x : H}
    (hx : x ∈ e.loadbalancer) (hne : x ≠ m) {s : State H}
    (hs : Kept g x (fun service => e.enabled service = true) s) : Grouped e s ∧ Served e s := by
  have hgroup : s.isMaster = g := hs.group
  refine ⟨Divided.grouped htold (hgroup ▸ hg.groups), fun m' hm' hvip _ => ?_⟩
  rw [(hmaster m' hm').mp hvip]
  exact ⟨x, hx, hne, fun service henabled =>
    ⟨hs.stopped service henabled, hs.waiting service henabled⟩⟩

omit [DecidableEq H] in
theorem Kept.safe_of_master (hg : Dividing e g)
    (htold : ∀ h ∈ e.loadbalancer, Touched e h → Told e h)
    (hmaster : ∀ h ∈ e.loadbalancer, e.vip ∈ e.addresses h ↔ h = m) {s : State H}
    (hs : Kept g m (fun _ => True) s) : Grouped e s ∧ Served e s := by
  have hgroup : s.isMaster = g := hs.group
  refine ⟨Divided.grouped htold (hgroup ▸ hg.groups), ?_⟩
  rintro m' hm' hvip ⟨service, hstopped⟩
  rw [(hmaster m' hm').mp hvip, hs.stopped service trivial] at hstopped
  exact absurd hstopped Bool.false_ne_true

/-- Nothing is restarted when only the configuration is generated. -/
theorem throughout_config (hnodup : e.loadbalancer.Nodup) (hconfig : e.config = true) :
    Throughout e fun s => Grouped e s ∧ Served e s := by
  have hstart : ∀ x, Kept .none x (fun _ => True) (flush e).state := fun x =>
    ⟨rfl, fun _ _ => rfl, fun _ _ => rfl⟩
  have hsafe : ∀ s : State H, (∀ x, Kept .none x (fun _ => True) s) → Grouped e s ∧ Served e s := by
    intro s hs
    constructor
    · intro h b hh
      rw [(hs h).group] at hh
      exact absurd hh List.not_mem_nil
    · rintro m - - ⟨service, hstopped⟩
      rw [(hs m).stopped service trivial] at hstopped
      exact absurd hstopped Bool.false_ne_true
  refine always_whatever hnodup hsafe ?_ hstart
  intro b hb t ht s₀ h s hs₀ hwhen hs x
  rcases List.mem_append.mp hb with hb | hb
  · simp only [List.mem_cons, List.not_mem_nil, or_false] at hb
    rcases hb with rfl | rfl
    all_goals
      rw [List.mem_singleton.mp ht] at hwhen
      simp [hconfig] at hwhen
  · rcases List.mem_append.mp hb with hb | hb
    · exact backupHandlers_keep List.not_mem_nil b hb t ht s₀ h s (hs₀ x) hwhen (hs x)
    · exact masterHandlers_keep List.not_mem_nil b hb t ht s₀ h s (hs₀ x) hwhen (hs x)

/-- The play is safe from the backups' restart on, if the master is spared. -/
theorem master_always (hg : Dividing e g) (hback : Backs e g)
    (htold : ∀ h ∈ e.loadbalancer, Touched e h → Told e h)
    (hmaster : ∀ h ∈ e.loadbalancer, e.vip ∈ e.addresses h ↔ h = m) (hspared : Spared e m)
    {p : Play H (State H)} (hp : Stage e g [.keepalived, .proxysql, .haproxy] p)
    (hsettled : Settled p.state) (hstops : ¬Stops e) :
    Always (fun q => Grouped e q.state ∧ Served e q.state) [] (masterHandlers e) p := by
  have hmem : ∀ {h}, h ∈ g true → h = m := by
    intro h hh
    obtain ⟨hmem, htouched, hb⟩ := hg.groups true h hh
    exact (hmaster h hmem).mp ((htold h hmem htouched).shows_iff.mp hb)
  rcases hspared with huntouched | hstops' | ⟨x, hx, hvip, hfails⟩
  · have hout : ∀ b, m ∉ g b := fun b hb => huntouched (hg.groups b m hb).2.1
    refine always_whatever hp.nodup (fun s hs => Kept.safe_of_master hg htold hmaster hs)
      (masterHandlers_keep (hout true)) ⟨hp.group, fun service _ => ?_, fun service _ => hsettled ..⟩
    exact Bool.eq_false_iff.mpr fun hstopped => hout false (hp.untouched service m hstopped)
  · exact absurd hstops' hstops
  · have hne : x ≠ m := fun heq => hvip ((hmaster x hx).mpr heq)
    have hready := (hp.ready_iff hback hsettled hx hvip).mpr hfails
    exact always_whatever hp.nodup (fun s hs => Kept.safe hg htold hmaster hx hne hs)
      (masterHandlers_keep fun hh => hne (hmem hh))
      ⟨hp.group, fun service henabled => (hready service henabled).1, fun service _ => hsettled ..⟩

/-- The master is stopped although no other host is ready, unless it is spared. -/
theorem spared_of_always (hconfig : e.config = false) (hg : Dividing e g) (hback : Backs e g)
    (htold : ∀ h ∈ e.loadbalancer, Touched e h → Told e h) (hm : m ∈ e.loadbalancer)
    (hmaster : ∀ h ∈ e.loadbalancer, e.vip ∈ e.addresses h ↔ h = m)
    {p : Play H (State H)} (hp : Stage e g [.keepalived, .proxysql, .haproxy] p)
    (hsettled : Settled p.state)
    (halways : Always (fun q => Grouped e q.state ∧ Served e q.state) [] (masterHandlers e) p) :
    Spared e m := by
  have hvip : e.vip ∈ e.addresses m := (hmaster m hm).mpr rfl
  by_cases htouched : Touched e m
  swap
  · exact .inl htouched
  refine .inr (.inr ?_)
  have hgroup : m ∈ p.state.isMaster true := by
    rw [hp.group, ← (htold m hm htouched).shows_iff.mpr hvip]
    exact hg.all m hm htouched
  have hactive : m ∈ p.active :=
    (hp.active m).mpr ⟨hm, fun hh => absurd hvip ((hback m).mp hh).2.2⟩
  have hstart : Halting e m p.state [] p := ⟨hp.nodup, hactive, hgroup, hp.restart, by simp,
    fun _ => id⟩
  obtain ⟨q, hq, hrest⟩ := (leadsOn_append (halt_leads hconfig hstart List.mem_cons_self)
    fun q hq => leadsOn_append (halt_leads hconfig hq List.mem_cons_self)
      fun q hq => halt_leads hconfig hq List.mem_cons_self).exists_append
        (fun s => Grouped e s ∧ Served e s) _ halways
  obtain ⟨service, hr⟩ := htouched
  have hstopped := hq.stopped service (by cases service <;> simp) hr
  obtain ⟨x, hx, hne, hready⟩ := hrest.now.2 m hm hvip ⟨service, hstopped⟩
  have hvip' : e.vip ∉ e.addresses x := fun h => hne ((hmaster x hx).mp h)
  exact ⟨x, hx, hvip', (hp.ready_iff hback hsettled hx hvip').mp (hq.ready x hready)⟩

omit [DecidableEq H] in
theorem stopping_nil (out : H → List Char) (g : Groups Bool H) : Stopping e g []
    ⟨e.loadbalancer, { (flush e).state with ipAddrOutput := out, isMaster := g }⟩ :=
  ⟨rfl, rfl, rfl, fun _ _ => rfl, fun _ _ => by simp [flush]⟩

theorem throughout_of_spared (hnodup : e.loadbalancer.Nodup)
    (hmaster : ∀ h ∈ e.loadbalancer, e.vip ∈ e.addresses h ↔ h = m) (hconfig : e.config = false)
    (htold : ∀ h ∈ e.loadbalancer, Touched e h → Told e h) (hspared : Spared e m) :
    Throughout e fun s => Grouped e s ∧ Served e s := by
  refine (grouping_leads hnodup hconfig).always_append (fun s => Grouped e s ∧ Served e s)
    (backupHandlers e ++ masterHandlers e) (fun s hs => hs.safe htold) ?_
  rintro _ ⟨out, g, rfl, hg⟩
  refine (backup_leads hnodup hconfig hg.groups (hg.backs htold)
    (stopping_nil out g)).always_append _ _ (fun s hs => hs.safe htold) ?_
  rintro ⟨active, s⟩ (⟨rfl, hbefore, -⟩ | ⟨hp, hsettled, hstops⟩)
  · exact always_stopped (hbefore.safe htold)
  · exact master_always hg (hg.backs htold) htold hmaster hspared hp hsettled hstops

theorem spared_of_throughout (hnodup : e.loadbalancer.Nodup) (hm : m ∈ e.loadbalancer)
    (hmaster : ∀ h ∈ e.loadbalancer, e.vip ∈ e.addresses h ↔ h = m) (hconfig : e.config = false)
    (halways : Throughout e fun s => Grouped e s ∧ Served e s) :
    (∀ h ∈ e.loadbalancer, Touched e h → Told e h) ∧ Spared e m := by
  obtain ⟨_, ⟨out, g, rfl, hg⟩, halways⟩ := (grouping_leads hnodup hconfig).exists_append
    (fun s => Grouped e s ∧ Served e s) (backupHandlers e ++ masterHandlers e) halways
  have htold : ∀ h ∈ e.loadbalancer, Touched e h → Told e h := fun h hh htouched =>
    hg.told rfl halways.now.1 hh htouched
  refine ⟨htold, ?_⟩
  obtain ⟨p, ⟨-, -, hstops⟩ | ⟨hp, hsettled, -⟩, halways⟩ :=
    (backup_leads hnodup hconfig hg.groups (hg.backs htold) (stopping_nil out g)).exists_append
      (fun s => Grouped e s ∧ Served e s) (masterHandlers e) halways
  · exact .inr (.inl hstops)
  · exact spared_of_always hconfig hg (hg.backs htold) htold hm hmaster hp hsettled halways

/-- The VIP is served throughout exactly if the text of the VIP tells the master from the others,
and the master is not restarted when no backup is left. -/
theorem served_throughout_iff (hnodup : e.loadbalancer.Nodup) (hm : m ∈ e.loadbalancer)
    (hmaster : ∀ h ∈ e.loadbalancer, e.vip ∈ e.addresses h ↔ h = m) :
    (Throughout e fun s => Grouped e s ∧ Served e s) ↔
      e.config = true ∨ (∀ h ∈ e.loadbalancer, Touched e h → Told e h) ∧ Spared e m := by
  by_cases hconfig : e.config = true
  · exact iff_of_true (throughout_config hnodup hconfig) (.inl hconfig)
  rw [or_iff_right hconfig]
  have hconfig : e.config = false := Bool.eq_false_iff.mpr hconfig
  constructor
  · exact spared_of_throughout hnodup hm hmaster hconfig
  · rintro ⟨htold, hspared⟩
    exact throughout_of_spared hnodup hmaster hconfig htold hspared

/-! ## Two hosts -/

/-- Two hosts with one address each, the one of host `true` being the VIP. -/
def pair (vip other : List Char) (hvip : vip ≠ [] ∧ ' ' ∉ vip ∧ '/' ∉ vip ∧ '\n' ∉ vip)
    (hquiet : shows isWord vip ['e', 't', 'h'] = false ∧ shows isWord vip ['6', '4'] = false)
    (starts : Service → Bool → Bool) : Setup Bool (List Char) where
  loadbalancer := [true, false]
  config := false
  vipText := vip
  vip := vip
  addresses h := if h then [vip] else [other]
  shown := id
  lead _ := ['e', 't', 'h']
  rest _ := ['6', '4']
  restarted _ _ := true
  enabled _ := true
  starts := starts
  answers _ _ := true
  answersVip _ _ := true
  vipText_ne := hvip.1
  vipText_plain := hvip.2
  lead_quiet _ := hquiet.1
  rest_quiet _ := hquiet.2

/-- The address of the backup has the VIP inside. -/
def nested : Setup Bool (List Char) :=
  pair ['f', 'd', ':', ':', '1'] ['f', 'd', ':', ':', '1', ':', '5'] (by decide) (by decide)
    fun _ _ => true

/-- Haproxy does not start on the backup. -/
def lone : Setup Bool (List Char) :=
  pair ['1', '0', '.', '0', '.', '0', '.', '1'] ['1', '0', '.', '0', '.', '0', '.', '2'] (by decide)
    (by decide) fun service h => service != .haproxy || h

theorem pair_unserved :
    ((∀ h ∈ nested.loadbalancer, nested.vip ∈ nested.addresses h ↔ h = true) ∧
      ¬Throughout nested fun s => Grouped nested s ∧ Served nested s) ∧
    ((∀ h ∈ lone.loadbalancer, lone.vip ∈ lone.addresses h ↔ h = true) ∧
      ¬Throughout lone fun s => Grouped lone s ∧ Served lone s) := by
  have hnested : ∀ h ∈ nested.loadbalancer, nested.vip ∈ nested.addresses h ↔ h = true := by decide
  have hlone : ∀ h ∈ lone.loadbalancer, lone.vip ∈ lone.addresses h ↔ h = true := by decide
  refine ⟨⟨hnested, fun halways => ?_⟩, ⟨hlone, fun halways => ?_⟩⟩
  · have htold := (spared_of_throughout (by decide) (by decide) hnested rfl halways).1 false
      (by decide) ⟨.haproxy, rfl⟩
    have hshows : ∃ a ∈ nested.addresses false,
        shows isWord nested.vipText (nested.shown a) = true := by decide
    exact absurd (htold.mp hshows) (by decide)
  · rcases (spared_of_throughout (by decide) (by decide) hlone rfl halways).2 with
      htouched | (⟨x, -, -, -, -, -, -, hfail⟩ | ⟨x, -, -, -, -, -, -, hfail⟩) | ⟨x, -, hx, hfails⟩
    · exact htouched ⟨.haproxy, rfl⟩
    · exact absurd hfail Bool.true_eq_false.mp
    · exact absurd hfail Bool.true_eq_false.mp
    · cases x with
      | false => exact hfails .haproxy ⟨rfl, ⟨.haproxy, List.mem_cons_self, rfl⟩, rfl⟩
      | true => exact hx (by decide)

/-- Every step succeeds. -/
def sound : Setup Bool (List Char) :=
  pair ['1', '0', '.', '0', '.', '0', '.', '1'] ['1', '0', '.', '0', '.', '0', '.', '2'] (by decide)
    (by decide) fun _ _ => true

theorem sound_served : Throughout sound fun s => Grouped sound s ∧ Served sound s := by
  refine (served_throughout_iff (m := true) (by decide) (by decide) (by decide)).mpr
    (.inr ⟨?_, ?_⟩)
  · intro h _ _
    unfold Told
    cases h with
    | false => decide
    | true => decide
  · exact .inr (.inr ⟨false, by decide, by decide, fun service hfails =>
      absurd hfails.2.2 (by simp [sound, pair])⟩)

end Served

end Loadbalancer
end KollaPowerOps
