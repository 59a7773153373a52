import KollaPowerOps.Actions.Operations

/-!
# Actions.Emptiness

When the emptiness checks fail closed. `assert_host_empty` and the policies of `drain_host` that
want the host empty decide on their last read of the servers, and they look only for servers that
report this host. So a server of the read that reports no hypervisor at all counts as absent, and
the checks are closed exactly for reads without such a server (`emptiness_closed_iff`).
-/

namespace KollaPowerOps
namespace Actions

open Effect

/-- The servers of the last call, if that call was an answered read of servers. -/
def decidingRead (tr : Trace) : List Server :=
  match tr.getLast? with
  | some ⟨.servers _, .ok servers⟩ => servers
  | _ => []

/-- The server reports a hypervisor. -/
def located (server : Server) : Bool := truthy (serverHost server)

/-- The server reports a hypervisor, and it is not this host. -/
def Elsewhere (host : String) (server : Server) : Prop :=
  ∃ hypervisor, serverHost server = some hypervisor ∧ hypervisor ≠ "" ∧ hypervisor ≠ host

/-- If the check succeeds, every server of the deciding read is somewhere else. -/
def FailsClosed {α : Type} (host : String) (tr : Trace) (r : Except Exn α) : Prop :=
  (∃ a, r = .ok a) → ∀ server ∈ decidingRead tr, Elsewhere host server

/-- Every server of the deciding read is located, or one of them is on the host. -/
def Determined (host : String) (tr : Trace) : Prop :=
  (∀ server ∈ decidingRead tr, located server = true) ∨
    ∃ server ∈ decidingRead tr, isOn host server = true

/-- How a check comes to its result: it succeeds if the deciding read has no server on the host,
and else it fails after such a read or for another reason than a read. -/
def Decided {α : Type} (host : String) (tr : Trace) : Except Exn α → Prop
  | .ok _ => ∀ server ∈ decidingRead tr, isOn host server = false
  | .error _ => decidingRead tr = [] ∨ ∃ server ∈ decidingRead tr, isOn host server = true

theorem elsewhere_iff {host : String} {server : Server} (h : isOn host server = false) :
    Elsewhere host server ↔ located server = true := by
  unfold Elsewhere located
  cases hs : serverHost server with
  | none => simp [truthy]
  | some hypervisor =>
    have hne : hypervisor ≠ host := by simpa [isOn, hs] using h
    simp [truthy, hne]

/-- A check that decides in this way is closed exactly on determined reads. -/
theorem failsClosed_iff {α : Type} {host : String} {tr : Trace} {r : Except Exn α}
    (h : Decided host tr r) : FailsClosed host tr r ↔ Determined host tr := by
  cases r with
  | error e =>
    have hclosed : FailsClosed host tr (.error e : Except Exn α) := by
      rintro ⟨a, ha⟩; cases ha
    have hdet : Determined host tr := by
      rcases h with h | h
      · exact .inl (by simp [h])
      · exact .inr h
    exact iff_of_true hclosed hdet
  | ok a =>
    have hoff : ∀ server ∈ decidingRead tr, isOn host server = false := h
    constructor
    · intro hc
      exact .inl fun s hs => (elsewhere_iff (hoff s hs)).mp (hc ⟨a, rfl⟩ s hs)
    · rintro (hd | ⟨s, hs, hon⟩) _ s' hs'
      · exact (elsewhere_iff (hoff s' hs')).mpr (hd s' hs')
      · rw [hoff s hs] at hon; cases hon

/-! ## The deciding read of a trace -/

@[simp] theorem decidingRead_read (host : String) (servers : List Server) :
    decidingRead [⟨.servers host, .ok servers⟩] = servers := rfl

@[simp] theorem decidingRead_snoc_error (tr : Trace) {τ : Type} (op : Call τ) (e : Exn) :
    decidingRead (tr ++ [⟨op, .error e⟩]) = [] := by
  simp only [decidingRead, List.getLast?_concat]

theorem decidingRead_append (tr : Trace) {tr' : Trace} (h : tr' ≠ []) :
    decidingRead (tr ++ tr') = decidingRead tr' := by
  simp only [decidingRead, List.getLast?_append_of_ne_nil tr h]

theorem decided_snoc_error {α : Type} {host : String} (tr : Trace) {τ : Type} (op : Call τ)
    (e : Exn) : Decided host (tr ++ [⟨op, .error e⟩]) (.error e : Except Exn α) :=
  .inl (decidingRead_snoc_error tr op e)

/-- Servers that the filter keeps are servers of the read that are on the host. -/
theorem exists_isOn {host : String} {servers : List Server}
    (h : (servers.filter (isOn host)).isEmpty = false) :
    ∃ server ∈ servers, isOn host server = true := by
  simpa using h

theorem forall_not_isOn {host : String} {servers : List Server}
    (h : (servers.filter (isOn host)).isEmpty = true) :
    ∀ server ∈ servers, isOn host server = false := by
  simpa using h

/-! ## The checks -/

theorem assertHostEmpty_decided {host : String} {tr : Trace} {r : Except Exn Emptied}
    (h : Finishes (assertHostEmpty host false) tr r) : Decided host tr r := by
  simp only [assertHostEmpty, serversOnHost, Prog.bind_def, Prog.bind_request, Prog.bind_call,
    Prog.pure_def, Prog.bind_ok, finishes_call] at h
  obtain ⟨servers, tr', rfl, h⟩ | ⟨e, rfl, rfl⟩ := h
  · cases hem : (servers.filter (isOn host)).isEmpty with
    | true =>
      simp only [hem] at h
      obtain ⟨rfl, rfl⟩ := finishes_done.mp h
      exact forall_not_isOn hem
    | false =>
      simp only [hem] at h
      obtain ⟨rfl, rfl⟩ := finishes_done.mp h
      exact .inr (exists_isOn hem)
  · exact .inl rfl

theorem each_quiet {ρ : Type} {f : ρ → Op Unit} (hf : ∀ x, (f x).Quiet) (xs : List ρ) :
    (each f xs).Quiet := by
  induction xs with
  | nil => trivial
  | cons x xs ih => exact (hf x).bind fun _ => ih

/-- The loop of `live_migrate`, after the calls `tr₀`. It gives up only after a read that still had
servers on the host. -/
theorem awaitGone_decided {host : String} {interval : Int} (n : Nat) :
    ∀ (tr₀ tr : Trace) (r : Except Exn Drained),
      (n = 0 → ∃ server ∈ decidingRead tr₀, isOn host server = true) →
      Finishes (awaitGone host interval n) tr r → Decided host (tr₀ ++ tr) r := by
  induction n with
  | zero =>
    intro tr₀ tr r hon h
    obtain ⟨rfl, rfl⟩ := finishes_raise.mp h
    rw [List.append_nil]
    exact .inr (hon rfl)
  | succ n ih =>
    intro tr₀ tr r _ h
    simp only [awaitGone, serversOnHost, Prog.bind_def, Prog.bind_request, Prog.bind_call,
      Prog.pure_def, Prog.bind_ok, finishes_call] at h
    obtain ⟨servers, tr', rfl, hk⟩ | ⟨e, rfl, rfl⟩ := h
    swap
    · exact decided_snoc_error tr₀ _ e
    rw [List.append_cons]
    have hread : decidingRead (tr₀ ++ [⟨.servers host, .ok servers⟩]) = servers := by
      rw [decidingRead_append tr₀ (by simp), decidingRead_read]
    cases hem : (servers.filter (isOn host)).isEmpty with
    | true =>
      simp only [hem, if_true] at hk
      obtain ⟨rfl, rfl⟩ := finishes_done.mp hk
      rw [List.append_nil, Decided, hread]
      exact forall_not_isOn hem
    | false =>
      have hon := exists_isOn hem
      rw [← hread] at hon
      simp only [hem, Bool.false_eq_true, if_false] at hk
      split at hk
      · obtain ⟨rfl, rfl⟩ := finishes_raise.mp hk
        rw [List.append_nil]
        exact .inr hon
      obtain ⟨_, tr₁, tr₂, rfl, hsleep, hrest⟩ | ⟨e, hsleep, rfl⟩ := finishes_bind.mp hk
      · rw [← List.append_assoc]
        refine ih _ tr₂ r (fun hn => ?_) hrest
        -- the last attempt does not sleep, so its read is still the last call
        subst hn
        obtain ⟨rfl, _⟩ := returns_ok.mp hsleep
        rwa [List.append_nil]
      · obtain ⟨tr₁, τ, op, rfl⟩ := (sleepBetween_quiet n interval).error hsleep
        rw [← List.append_assoc]
        exact decided_snoc_error _ op e

theorem attempts_returns {timeout interval : Int} {n : Nat} {tr : Trace}
    (h : Returns (attempts timeout interval) tr n) :
    tr = [] ∧ 0 < timeout ∧ 0 < interval ∧ 0 < n := by
  unfold attempts at h
  split at h
  · exact absurd h returns_raise
  · obtain ⟨rfl, rfl⟩ := returns_ok.mp h
    exact ⟨rfl, by omega, by omega, by omega⟩

theorem attempts_raises {timeout interval : Int} {e : Exn} {tr : Trace}
    (h : Finishes (attempts timeout interval) tr (.error e)) : timeout ≤ 0 ∨ interval ≤ 0 := by
  unfold attempts at h
  split at h
  · assumption
  · cases (finishes_done.mp h).2

theorem requireEmpty_decided {host : String} {timeout interval : Int} {tr : Trace}
    {r : Except Exn Drained}
    (h : Finishes (drainHost host "require_empty" timeout interval) tr r) : Decided host tr r := by
  have hpolicy : ¬ "require_empty" ∉ instancePolicies := by decide
  simp only [drainHost, hpolicy, if_false, if_true, serversOnHost, Prog.bind_def,
    Prog.bind_request, Prog.bind_call, Prog.pure_def, Prog.bind_ok, finishes_call] at h
  obtain ⟨servers, tr', rfl, h⟩ | ⟨e, rfl, rfl⟩ := h
  · cases hem : (servers.filter (isOn host)).isEmpty with
    | true =>
      simp only [hem] at h
      obtain ⟨rfl, rfl⟩ := finishes_done.mp h
      exact forall_not_isOn hem
    | false =>
      simp only [hem] at h
      obtain ⟨rfl, rfl⟩ := finishes_done.mp h
      exact .inr (exists_isOn hem)
  · exact .inl rfl

/-- With a timeout that is not positive, `live_migrate` raises; else its last poll decides. -/
theorem liveMigrate_decided {host : String} {timeout interval : Int} {tr : Trace}
    {r : Except Exn Drained}
    (h : Finishes (drainHost host "live_migrate" timeout interval) tr r) :
    Decided host tr r ∨ ((timeout ≤ 0 ∨ interval ≤ 0) ∧ ∃ e, r = .error e) := by
  have hpolicy : ¬ "live_migrate" ∉ instancePolicies := by decide
  have hother : ¬ "live_migrate" = "require_empty" := by decide
  simp only [drainHost, hpolicy, hother, if_false, if_true, serversOnHost, Prog.bind_def,
    Prog.bind_request, Prog.bind_call, Prog.pure_def, Prog.bind_ok, finishes_call] at h
  obtain ⟨servers, tr', rfl, h⟩ | ⟨e, rfl, rfl⟩ := h
  swap
  · exact .inl (.inl rfl)
  obtain ⟨_, tr₁, tr₂, rfl, hmig, h⟩ | ⟨e, hmig, rfl⟩ := finishes_bind.mp h
  swap
  · have hq : (each Connection.liveMigrateServer (servers.filter (isOn host))).Quiet :=
      each_quiet (fun server => Prog.request_quiet (.liveMigrateServer server)) _
    obtain ⟨tr₁, τ, op, rfl⟩ := hq.error hmig
    rw [← List.cons_append]
    exact .inl (decided_snoc_error _ op e)
  obtain ⟨n, tr₃, tr₄, rfl, hatt, hloop⟩ | ⟨e, hatt, rfl⟩ := finishes_bind.mp h
  · obtain ⟨rfl, _, _, hn⟩ := attempts_returns hatt
    rw [List.nil_append, ← List.cons_append]
    exact .inl (awaitGone_decided n _ _ r (fun h0 => absurd h0 (by omega)) hloop)
  · exact .inr ⟨attempts_raises hatt, e, rfl⟩

theorem liveMigrate_returns {host : String} {timeout interval : Int} {tr : Trace} {d : Drained}
    (h : Returns (drainHost host "live_migrate" timeout interval) tr d) :
    0 < timeout ∧ 0 < interval := by
  have hpolicy : ¬ "live_migrate" ∉ instancePolicies := by decide
  have hother : ¬ "live_migrate" = "require_empty" := by decide
  simp only [drainHost, hpolicy, hother, if_false, if_true, Prog.bind_def, returns_bind] at h
  obtain ⟨_, _, _, _, _, _, _, _, _, _, n, tr₁, _, _, hatt, _⟩ := h
  obtain ⟨_, ht, hi, _⟩ := attempts_returns hatt
  exact ⟨ht, hi⟩

/-- **When the emptiness checks are closed.** `assert_host_empty` without the SHUTOFF allowance,
and `drain_host` under `require_empty` and `live_migrate`, succeed only if every server of their
last read is somewhere else, exactly if that read is determined (or the timeouts of the migration
are not positive, so that it raises). -/
theorem emptiness_closed_iff (host : String) :
    (∀ tr r, Finishes (assertHostEmpty host false) tr r →
      (FailsClosed host tr r ↔ Determined host tr)) ∧
    (∀ timeout interval tr r, Finishes (drainHost host "require_empty" timeout interval) tr r →
      (FailsClosed host tr r ↔ Determined host tr)) ∧
    ∀ timeout interval tr r, Finishes (drainHost host "live_migrate" timeout interval) tr r →
      (FailsClosed host tr r ↔ Determined host tr ∨ timeout ≤ 0 ∨ interval ≤ 0) := by
  refine ⟨fun tr r h => failsClosed_iff (assertHostEmpty_decided h),
    fun _ _ tr r h => failsClosed_iff (requireEmpty_decided h), fun timeout interval tr r h => ?_⟩
  obtain hd | ⟨hbad, e, rfl⟩ := liveMigrate_decided h
  · rw [failsClosed_iff hd]
    refine ⟨.inl, fun hor => hor.elim id fun hbad => ?_⟩
    cases r with
    | ok d => have := liveMigrate_returns h; omega
    | error e => exact (failsClosed_iff hd).mp fun ⟨_, ha⟩ => by cases ha
  · exact iff_of_true (fun ⟨_, ha⟩ => by cases ha) (.inr hbad)

/-- A server for which Nova reports no hypervisor. -/
def unplaced : Server := { id := "server-1", status := "ACTIVE" }

/-- Nova returns this server for the host. -/
def unplacedRead : CallEvent := ⟨.servers "compute-01", .ok [unplaced]⟩

theorem assertHostEmpty_unplaced :
    Finishes (assertHostEmpty "compute-01" false) [unplacedRead] (.ok ⟨"compute-01", []⟩) :=
  .ret .nil

theorem unplacedRead_not_determined (tr : Trace) :
    ¬ Determined "compute-01" (tr ++ [unplacedRead]) := by
  rw [Determined, decidingRead_append tr (by simp)]
  decide

/-- On such a read none of the three checks is closed. -/
theorem emptiness_closed_iff_unplaced :
    ¬ FailsClosed "compute-01" [unplacedRead] (.ok ⟨"compute-01", []⟩ : Except Exn Emptied) ∧
    ¬ FailsClosed "compute-01" [unplacedRead]
        (.ok (.serversOnSource "compute-01" []) : Except Exn Drained) ∧
    ¬ FailsClosed "compute-01" [unplacedRead, unplacedRead]
        (.ok (.serversOnSource "compute-01" []) : Except Exn Drained) := by
  obtain ⟨hassert, hrequire, hmigrate⟩ := emptiness_closed_iff "compute-01"
  have hrequired : Finishes (drainHost "compute-01" "require_empty" 600 5) [unplacedRead]
      (.ok (.serversOnSource "compute-01" [])) := .ret .nil
  have hmigrated : Finishes (drainHost "compute-01" "live_migrate" 600 5)
      [unplacedRead, unplacedRead] (.ok (.serversOnSource "compute-01" [])) := .ret (.ret .nil)
  refine ⟨?_, ?_, ?_⟩
  · rw [hassert _ _ assertHostEmpty_unplaced]
    exact unplacedRead_not_determined []
  · rw [hrequire 600 5 _ _ hrequired]
    exact unplacedRead_not_determined []
  · rw [hmigrate 600 5 _ _ hmigrated]
    exact fun h => h.elim (unplacedRead_not_determined [unplacedRead]) (by decide)

/-- Nova returns one server for the host, without a hypervisor, and the check succeeds. -/
theorem emptiness_open :
    ¬ ∀ host tr r, Finishes (assertHostEmpty host false) tr r → FailsClosed host tr r := by
  intro h
  obtain ⟨hypervisor, hs, _⟩ := h "compute-01" [unplacedRead] _ assertHostEmpty_unplaced
    ⟨_, rfl⟩ unplaced (List.mem_singleton.mpr rfl)
  cases hs

end Actions
end KollaPowerOps
