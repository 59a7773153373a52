import KollaPowerOps.Actions.Operations

/-!
# Actions.Footprint

Which calls an operation can make. The mappings of the host name only read, and what they return
belongs to the host, so an operation changes at most what belongs to its host. The results hold of
any set `P` of calls that has the reading ones.
-/

namespace KollaPowerOps
namespace Actions

open Effect

section

variable {P : ∀ {τ : Type}, Call τ → Prop} 
  (hread : ∀ {τ : Type} (op : Call τ), op.reading = true → P op)

include hread

omit hread in
theorem exactlyOne_filter_within {ρ : Type} {e : Exn} {xs : List ρ} {q : ρ → Bool} :
    (exactlyOne e (xs.filter q)).Within P fun x => q x = true :=
  exactlyOne_within.mono (fun _ h => h) fun _ hx => (List.mem_filter.mp hx).2

theorem ironicNode_within (host : String) :
    (ironicNode host).Within P fun node => node.name = some host :=
  ⟨hread _ rfl, fun _ => exactlyOne_filter_within.mono (fun _ h => h)
    fun _ hq => by simpa using hq⟩

theorem novaService_within (host : String) :
    (novaService host).Within P fun service => service.host = some host := by
  refine ⟨hread _ rfl, fun _ => exactlyOne_filter_within.mono (fun _ h => h) fun _ hq => ?_⟩
  simp only [isComputeOf, Bool.and_eq_true, decide_eq_true_eq] at hq
  exact hq.1

theorem masakariMatches_within (host : String) (segments : List Segment) :
    (masakariMatches host segments).Within P fun found => ∀ x ∈ found, x.2.name = some host := by
  induction segments with
  | nil => simp [masakariMatches, Prog.Within]
  | cons segment segments ih =>
    refine ⟨hread _ rfl, fun items => ?_⟩
    refine Prog.Within.bind (p := masakariMatches host segments) ih fun found hfound x hx => ?_
    rcases List.mem_append.mp hx with hx | hx
    · obtain ⟨item, hitem, rfl⟩ := List.mem_map.mp hx
      simpa using (List.mem_filter.mp hitem).2
    · exact hfound x hx

theorem masakariHost_within (host : String) :
    (masakariHost host).Within P fun x => x.2.name = some host :=
  ⟨hread _ rfl, fun segments => (masakariMatches_within hread host segments).bind
    fun _ hfound => exactlyOne_within.mono (fun _ h => h) hfound⟩

theorem serversOnHost_within (host : String) :
    (serversOnHost host).Within P fun servers => ∀ s ∈ servers, serverHost s = some host := by
  refine ⟨hread _ rfl, fun servers s hs => ?_⟩
  simpa [isOn] using (List.mem_filter.mp hs).2

theorem resolveHost_uses (host : String) : (resolveHost host).Uses P :=
  (novaService_within hread host).bind fun _ _ =>
    (ironicNode_within hread host).bind fun _ _ =>
      (masakariHost_within hread host).bind fun _ _ => trivial

theorem setNovaService_uses (host : String) (enabled : Bool) (reason : String)
    (hon : enabled = true → ∀ service, service.host = some host → P (.enableService service))
    (hoff : enabled = false → ∀ service, service.host = some host →
      P (.disableService service reason)) :
    (setNovaService host enabled reason).Uses P := by
  refine (novaService_within hread host).bind fun service hs => ?_
  refine Prog.Uses.bind ?_ fun _ => trivial
  cases enabled with
  | true =>
    unfold novaUpdate
    simp only [if_true]
    split
    exacts [⟨hon rfl _ hs, fun _ => trivial⟩, trivial]
  | false =>
    unfold novaUpdate
    simp only [Bool.false_eq_true, if_false]
    split
    exacts [⟨hoff rfl _ hs, fun _ => trivial⟩, trivial]

theorem setMasakariMaintenance_uses (host : String) (enabled : Bool)
    (hset : ∀ item segment, item.name = some host → P (.updateHost item segment enabled)) :
    (setMasakariMaintenance host enabled).Uses P := by
  refine (masakariHost_within hread host).bind fun x hx => ?_
  refine Prog.Uses.bind ?_ fun _ => trivial
  unfold masakariUpdate
  split
  exacts [⟨hset _ _ hx, fun _ => trivial⟩, trivial]

omit hread in
theorem attempts_uses (timeout interval : Int) : (attempts timeout interval).Uses P := by
  unfold attempts
  split <;> trivial

omit hread in
theorem each_uses {ρ : Type} {f : ρ → Op Unit} {xs : List ρ} (hf : ∀ x ∈ xs, (f x).Uses P) :
    (each f xs).Uses P := by
  induction xs with
  | nil => trivial
  | cons x xs ih =>
    exact (hf x List.mem_cons_self).bind fun _ => ih fun y hy => hf y (List.mem_cons_of_mem _ hy)

theorem awaitGone_uses (host : String) (interval : Int) (n : Nat) :
    (awaitGone host interval n).Uses P := by
  induction n with
  | zero => trivial
  | succ n ih =>
    refine (serversOnHost_within hread host).bind fun remaining _ => ?_
    split
    · trivial
    split
    · trivial
    · exact Prog.Uses.bind (sleepBetween_uses (hread _ rfl)) fun _ => ih

theorem awaitStopped_uses (host : String) (interval : Int) (n : Nat) :
    (awaitStopped host interval n).Uses P := by
  induction n with
  | zero => trivial
  | succ n ih =>
    refine (serversOnHost_within hread host).bind fun remaining _ => ?_
    dsimp only
    split
    · trivial
    split
    · trivial
    · exact Prog.Uses.bind (sleepBetween_uses (hread _ rfl)) fun _ => ih

theorem drainHost_uses (host policy : String) (timeout interval : Int)
    (hmigrate : ∀ server, serverHost server = some host → P (.liveMigrateServer server))
    (hstop : ∀ server, serverHost server = some host → P (.stopServer server)) :
    (drainHost host policy timeout interval).Uses P := by
  unfold drainHost
  split
  · trivial
  refine (serversOnHost_within hread host).bind fun initial hinitial => ?_
  split
  · split <;> trivial
  split
  · refine Prog.Uses.bind (each_uses fun s hs => ⟨hmigrate s (hinitial s hs), fun _ => trivial⟩)
      fun _ => (attempts_uses timeout interval).bind fun n => awaitGone_uses hread host interval n
  · refine Prog.Uses.bind (each_uses fun s hs => ⟨hstop s (hinitial s hs), fun _ => trivial⟩)
      fun _ => (attempts_uses timeout interval).bind fun n =>
        awaitStopped_uses hread host interval n

theorem assertHostEmpty_uses (host : String) (allowShutoff : Bool) :
    (assertHostEmpty host allowShutoff).Uses P := by
  refine (serversOnHost_within hread host).bind fun servers _ => ?_
  dsimp only
  split <;> trivial

theorem requestPower_uses (host target : String) (soft : Bool)
    (hset : ∀ node, node.name = some host →
      P (.setNodePowerState node (effectiveTarget target soft))) :
    (requestPower host target soft).Uses P := by
  unfold requestPower
  split
  · trivial
  refine (ironicNode_within hread host).bind fun node hnode => ?_
  dsimp only
  split
  · trivial
  split
  · trivial
  · exact ⟨hset node hnode, fun _ => trivial⟩

theorem waitPower_uses (host target : String) (timeout interval stableObservations : Int) :
    (waitPower host target timeout interval stableObservations).Uses P := by
  unfold waitPower
  split
  · trivial
  · exact (ironicNode_within hread host).bind fun node _ =>
      (attempts_uses timeout interval).bind fun n =>
        StablePoll.run_uses _ (fun _ => hread _ rfl) (hread _ rfl) n node 0

theorem pollNova_uses (host : String) (interval : Int) (n : Nat) :
    (pollNova host interval n).Uses P := by
  induction n with
  | zero => trivial
  | succ n ih =>
    refine (novaService_within hread host).bind fun service _ => ?_
    split
    · trivial
    · exact Prog.Uses.bind (sleepBetween_uses (hread _ rfl)) fun _ => ih

theorem waitNovaService_uses (host : String) (timeout interval : Int) :
    (waitNovaService host timeout interval).Uses P :=
  (attempts_uses timeout interval).bind fun n => pollNova_uses hread host interval n

omit hread in
theorem checkAgents_uses (agents : List Agent) (binaries : List String) :
    (checkAgents agents binaries).Uses P := by
  induction binaries with
  | nil => trivial
  | cons binary binaries ih =>
    unfold checkAgents
    split
    · split
      · exact ih
      · trivial
    · trivial

theorem verifyHostReturn_uses (required : List String) (host : String) (stale : Value) :
    (verifyHostReturn required host stale).Uses P := by
  unfold verifyHostReturn
  split
  · trivial
  refine (ironicNode_within hread host).bind fun named _ => ⟨hread _ rfl, fun node => ?_⟩
  simp only [Prog.bind_ok]
  split
  · trivial
  refine (novaService_within hread host).bind fun service _ => ?_
  split
  · trivial
  exact ⟨hread _ rfl, fun agents => (checkAgents_uses agents required).bind fun _ => trivial⟩

theorem failSafeHost_uses (host : String)
    (hoff : ∀ service reason, service.host = some host → P (.disableService service reason))
    (hset : ∀ item segment, item.name = some host → P (.updateHost item segment true)) :
    (failSafeHost host).Uses P :=
  (setNovaService_uses hread host false _ (by simp) fun _ s hs => hoff s _ hs).bind fun _ =>
    (setMasakariMaintenance_uses hread host true hset).bind fun _ => trivial

theorem status_uses (host : String) : (status host).Uses P :=
  (novaService_within hread host).bind fun _ _ =>
    (ironicNode_within hread host).bind fun _ _ =>
      (masakariHost_within hread host).bind fun _ _ => trivial

end

end Actions
end KollaPowerOps
