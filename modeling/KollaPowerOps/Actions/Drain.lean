import KollaPowerOps.Actions.Emptiness
import Mathlib.Tactic.Ring

/-!
# Actions.Drain

What `drain_host` does over a whole run. The two loops that wait for the servers are one loop with
two rules for when the host counts as drained (`awaitServers`); `Polled` lists its runs, pass by
pass, and every fact about them is an induction over that list. `drain_host_exact` puts the runs
together with the calls before them.
-/

namespace KollaPowerOps
namespace Actions

open Effect

/-! ## What a trace shows -/

/-- Every call was answered with a value. -/
def Answered (tr : Trace) : Prop := ∀ ev ∈ tr, ∃ a, ev.answer = .ok a

/-- The servers that were asked to migrate, however the calls were answered. -/
def migrations (tr : Trace) : List Server :=
  tr.filterMap fun
    | ⟨.liveMigrateServer server, _⟩ => some server
    | _ => none

/-- The servers that were asked to stop. -/
def stops (tr : Trace) : List Server :=
  tr.filterMap fun
    | ⟨.stopServer server, _⟩ => some server
    | _ => none

def isRead {τ : Type} : Call τ → Bool
  | .servers _ => true
  | _ => false

/-- How often the servers were read. -/
def reads (tr : Trace) : Nat := tr.countP fun ev => isRead ev.op

def pause : CallEvent → Int
  | ⟨.sleep seconds, _⟩ => seconds
  | _ => 0

/-- How long the run has slept. -/
def slept (tr : Trace) : Int := (tr.map pause).sum

/-- A server of the snapshot that is on the host and in `ERROR`. -/
def InError (host : String) (servers : List Server) : Prop :=
  ∃ server ∈ servers, isOn host server = true ∧ server.status = some "ERROR"

/-- A read that shows a server of the host in `ERROR`. -/
def ShowsError (host : String) : CallEvent → Prop
  | ⟨.servers _, .ok servers⟩ => InError host servers
  | _ => False

/-- A pause that was not broken off. -/
def isPause : CallEvent → Bool
  | ⟨.sleep _, .ok _⟩ => true
  | _ => false

abbrev readEvent (host : String) (servers : List Server) : CallEvent :=
  ⟨.servers host, .ok servers⟩

abbrev sleepEvent (interval : Int) : CallEvent := ⟨.sleep interval, .ok ()⟩

@[simp] theorem migrations_append (tr₁ tr₂ : Trace) :
    migrations (tr₁ ++ tr₂) = migrations tr₁ ++ migrations tr₂ := List.filterMap_append

@[simp] theorem stops_append (tr₁ tr₂ : Trace) : stops (tr₁ ++ tr₂) = stops tr₁ ++ stops tr₂ :=
  List.filterMap_append

@[simp] theorem reads_append (tr₁ tr₂ : Trace) : reads (tr₁ ++ tr₂) = reads tr₁ + reads tr₂ :=
  List.countP_append

@[simp] theorem slept_append (tr₁ tr₂ : Trace) : slept (tr₁ ++ tr₂) = slept tr₁ + slept tr₂ := by
  simp [slept]

@[simp] theorem answered_cons {ev : CallEvent} {tr : Trace} :
    Answered (ev :: tr) ↔ (∃ a, ev.answer = .ok a) ∧ Answered tr := List.forall_mem_cons

@[simp] theorem answered_append {tr₁ tr₂ : Trace} :
    Answered (tr₁ ++ tr₂) ↔ Answered tr₁ ∧ Answered tr₂ := List.forall_mem_append

theorem only_event {ev ev' : CallEvent} {tr₁ tr₂ : Trace} (h : [ev'] = tr₁ ++ ev :: tr₂) :
    tr₁ = [] ∧ ev = ev' ∧ tr₂ = [] := by
  cases tr₁ with
  | nil =>
    cases h
    exact ⟨rfl, rfl, rfl⟩
  | cons ev'' tr₁ => simp at h

/-! ## The waiting loop -/

/-- The loop of `drain_host`: `settled` says when the servers left on the host end it, and with
what result. -/
def awaitServers (host : String) (interval : Int) (settled : List Server → Option Drained)
    (failure timeout : Exn) : Nat → Op Drained
  | 0 => raise timeout
  | n + 1 => do
    let remaining ← serversOnHost host
    match settled remaining with
    | some result => pure result
    | none =>
      if remaining.any fun item => item.status = some "ERROR" then
        raise failure
      else do
        sleepBetween n interval
        awaitServers host interval settled failure timeout n

/-- No server is left. -/
def settledGone (host : String) (remaining : List Server) : Option Drained :=
  if remaining.isEmpty then some (.serversOnSource host []) else none

/-- Every server that is left is `SHUTOFF`. -/
def settledStopped (host : String) (remaining : List Server) : Option Drained :=
  if (remaining.map Server.statusText).all (· = "SHUTOFF") then
    some (.remainingStatuses host (remaining.map Server.statusText))
  else none

theorem awaitGone_eq (host : String) (interval : Int) (n : Nat) :
    awaitGone host interval n =
      awaitServers host interval (settledGone host) (.hostNotEmpty "server migration entered ERROR")
        (.hostNotEmpty "servers did not leave host before timeout") n := by
  induction n with
  | zero => rfl
  | succ n ih =>
    rw [awaitGone, awaitServers, ih]
    congr 1
    funext remaining
    unfold settledGone
    split <;> rfl

theorem statusText_eq_error {server : Server} :
    server.statusText = "ERROR" ↔ server.status = some "ERROR" := by
  unfold Server.statusText
  cases server.status <;> simp

theorem awaitStopped_eq (host : String) (interval : Int) (n : Nat) :
    awaitStopped host interval n =
      awaitServers host interval (settledStopped host) (.hostNotEmpty "server stop entered ERROR")
        (.hostNotEmpty "servers did not stop before timeout") n := by
  induction n with
  | zero => rfl
  | succ n ih =>
    rw [awaitStopped, awaitServers, ih]
    congr 1
    funext remaining
    have herror : (remaining.map Server.statusText).any (· = "ERROR") =
        remaining.any fun item => item.status = some "ERROR" := by
      simp only [List.any_map, Function.comp_def, statusText_eq_error]
    dsimp only
    rw [herror]
    unfold settledStopped
    split <;> rfl

/-- The runs of the loop with so many attempts left, pass by pass. -/
inductive Polled (host : String) (interval : Int) (settled : List Server → Option Drained)
    (failure timeout : Exn) : Nat → Trace → Except Exn Drained → Prop where
  | exhausted : Polled host interval settled failure timeout 0 [] (.error timeout)
  | unread {n : Nat} {e : Exn} :
      Polled host interval settled failure timeout (n + 1) [⟨.servers host, .error e⟩] (.error e)
  | drained {n : Nat} {servers : List Server} {result : Drained} :
      settled (servers.filter (isOn host)) = some result →
      Polled host interval settled failure timeout (n + 1) [readEvent host servers] (.ok result)
  | failed {n : Nat} {servers : List Server} :
      InError host servers →
      Polled host interval settled failure timeout (n + 1) [readEvent host servers] (.error failure)
  | last {servers : List Server} :
      ¬ InError host servers →
      Polled host interval settled failure timeout 1 [readEvent host servers] (.error timeout)
  | woken {n : Nat} {servers : List Server} {e : Exn} :
      ¬ InError host servers →
      Polled host interval settled failure timeout (n + 2)
        [readEvent host servers, ⟨.sleep interval, .error e⟩] (.error e)
  | again {n : Nat} {servers : List Server} {tr : Trace} {r : Except Exn Drained} :
      ¬ InError host servers →
      Polled host interval settled failure timeout (n + 1) tr r →
      Polled host interval settled failure timeout (n + 2)
        (readEvent host servers :: sleepEvent interval :: tr) r

section Loop

variable {host : String} {interval : Int} {settled : List Server → Option Drained}
  {failure timeout : Exn}

theorem any_error_iff {servers : List Server} :
    ((servers.filter (isOn host)).any fun item => item.status = some "ERROR") = true ↔
      InError host servers := by
  simp [InError]

/-- Every run of the loop is one of these. -/
theorem awaitServers_polled (n : Nat) :
    ∀ {tr : Trace} {r : Except Exn Drained},
      Finishes (awaitServers host interval settled failure timeout n) tr r →
        Polled host interval settled failure timeout n tr r := by
  induction n with
  | zero =>
    intro tr r h
    obtain ⟨rfl, rfl⟩ := finishes_raise.mp h
    exact .exhausted
  | succ n ih =>
    intro tr r h
    simp only [awaitServers, serversOnHost, Prog.bind_def, Prog.bind_request, Prog.bind_call,
      Prog.pure_def, Prog.bind_ok, finishes_call] at h
    obtain ⟨servers, tr', rfl, hk⟩ | ⟨e, rfl, rfl⟩ := h
    swap
    · exact .unread
    split at hk
    · rename_i result hsettled
      obtain ⟨rfl, rfl⟩ := finishes_done.mp hk
      exact .drained hsettled
    split at hk
    · rename_i herror
      obtain ⟨rfl, rfl⟩ := finishes_raise.mp hk
      exact .failed (any_error_iff.mp herror)
    rename_i hnone
    have herror : ¬ InError host servers := fun h => hnone (any_error_iff.mpr h)
    cases n with
    | zero =>
      obtain ⟨rfl, rfl⟩ := finishes_raise.mp hk
      exact .last herror
    | succ n =>
      rw [sleepBetween, if_pos (Nat.succ_pos n), Prog.bind_request] at hk
      obtain ⟨_, tr'', rfl, hrest⟩ | ⟨e, rfl, rfl⟩ := finishes_call.mp hk
      · exact .again herror (ih hrest)
      · exact .woken herror

namespace Polled

variable {n : Nat} {tr : Trace} {r : Except Exn Drained}

/-- The loop asks no server for anything. -/
theorem asks_none (h : Polled host interval settled failure timeout n tr r) :
    migrations tr = [] ∧ stops tr = [] := by
  induction h with
  | exhausted => exact ⟨rfl, rfl⟩
  | unread => exact ⟨rfl, rfl⟩
  | drained => exact ⟨rfl, rfl⟩
  | failed => exact ⟨rfl, rfl⟩
  | last => exact ⟨rfl, rfl⟩
  | woken => exact ⟨rfl, rfl⟩
  | again _ _ ih => exact ih

theorem reads_le (h : Polled host interval settled failure timeout n tr r) : reads tr ≤ n := by
  induction h with
  | exhausted => exact le_rfl
  | unread => simp [reads, isRead]
  | drained => simp [reads, isRead]
  | failed => simp [reads, isRead]
  | last => simp [reads, isRead]
  | woken => simp [reads, isRead]
  | @again n servers tr r _ _ ih =>
    have hcons : reads (readEvent host servers :: sleepEvent interval :: tr) = reads tr + 1 := by
      simp [reads, isRead]
    omega

/-- It sleeps between its reads, and only there. -/
theorem slept_le (hi : 0 < interval)
    (h : Polled host interval settled failure timeout n tr r) :
    slept tr ≤ ((n - 1 : Nat) : Int) * interval := by
  induction h with
  | exhausted => simp [slept]
  | unread => exact Int.mul_nonneg (Int.natCast_nonneg _) hi.le
  | drained => exact Int.mul_nonneg (Int.natCast_nonneg _) hi.le
  | failed => exact Int.mul_nonneg (Int.natCast_nonneg _) hi.le
  | last => simp [slept, pause]
  | @woken n =>
    have hmul := Int.mul_nonneg (Int.natCast_nonneg n) hi.le
    have hsplit : ((n + 2 - 1 : Nat) : Int) * interval = n * interval + interval := by
      push_cast
      ring
    simp only [slept, pause, List.map_cons, List.map_nil, List.sum_cons, List.sum_nil]
    omega
  | @again n servers tr r _ _ ih =>
    have hcons : slept (readEvent host servers :: sleepEvent interval :: tr) =
        interval + slept tr := by
      simp [slept, pause]
    have hsplit : ((n + 2 - 1 : Nat) : Int) * interval =
        ((n + 1 - 1 : Nat) : Int) * interval + interval := by
      push_cast
      ring
    omega

/-- After a pause there is always another read. -/
theorem ends_awake (h : Polled host interval settled failure timeout n tr r) :
    ∀ ev, tr.getLast? = some ev → isPause ev = false := by
  induction h with
  | exhausted => simp
  | unread => simp [isPause]
  | drained => simp [isPause]
  | failed => simp [isPause]
  | last => simp [isPause]
  | woken => simp [isPause]
  | @again n servers tr r _ hrest ih =>
    have hne : tr ≠ [] := by
      rintro rfl
      cases hrest
    intro ev hev
    rw [List.getLast?_cons_cons, List.getLast?_cons_of_ne_nil hne] at hev
    exact ih ev hev

/-- A normal return comes right after a read that settles it. -/
theorem settled_last (h : Polled host interval settled failure timeout n tr r) {d : Drained}
    (hr : r = .ok d) :
    ∃ tr' servers, tr = tr' ++ [readEvent host servers] ∧
      settled (servers.filter (isOn host)) = some d := by
  induction h with
  | exhausted => cases hr
  | unread => cases hr
  | @drained _ servers result hsettled =>
    cases hr
    exact ⟨[], servers, rfl, hsettled⟩
  | failed => cases hr
  | last => cases hr
  | woken => cases hr
  | @again _ servers tr _ _ _ ih =>
    obtain ⟨tr', servers', rfl, hsettled⟩ := ih hr
    exact ⟨readEvent host servers :: sleepEvent interval :: tr', servers', rfl, hsettled⟩

/-- A read that shows a server in `ERROR` is the last call, and the loop fails. -/
theorem error_last (hsettled : ∀ servers, InError host servers →
      settled (servers.filter (isOn host)) = none)
    (h : Polled host interval settled failure timeout n tr r) {tr₁ tr₂ : Trace} {ev : CallEvent}
    (heq : tr = tr₁ ++ ev :: tr₂) (hev : ShowsError host ev) : tr₂ = [] ∧ r = .error failure := by
  induction h generalizing tr₁ with
  | exhausted => simp at heq
  | unread =>
    obtain ⟨rfl, rfl, rfl⟩ := only_event heq
    exact hev.elim
  | drained hsome =>
    obtain ⟨rfl, rfl, rfl⟩ := only_event heq
    rw [hsettled _ hev] at hsome
    cases hsome
  | failed =>
    obtain ⟨rfl, rfl, rfl⟩ := only_event heq
    exact ⟨rfl, rfl⟩
  | last hno =>
    obtain ⟨rfl, rfl, rfl⟩ := only_event heq
    exact absurd hev hno
  | woken hno =>
    rcases tr₁ with _ | ⟨_, tr₁⟩
    · cases heq
      exact absurd hev hno
    · obtain ⟨rfl, rfl, rfl⟩ := only_event (List.cons.inj heq).2
      exact hev.elim
  | again hno _ ih =>
    rcases tr₁ with _ | ⟨_, _ | ⟨_, tr₁⟩⟩
    · cases heq
      exact absurd hev hno
    · cases heq
      exact hev.elim
    · simp only [List.cons_append, List.cons.injEq] at heq
      exact ih heq.2.2

/-- A run that times out has made all its reads and all the pauses between them. -/
theorem timed_out (hne : failure ≠ timeout)
    (h : Polled host interval settled failure timeout n tr r) (htr : Answered tr)
    (hr : r = .error timeout) :
    reads tr = n ∧ slept tr = ((n - 1 : Nat) : Int) * interval := by
  induction h with
  | exhausted => exact ⟨rfl, by simp [slept]⟩
  | unread =>
    obtain ⟨⟨_, h⟩, _⟩ := answered_cons.mp htr
    cases h
  | drained => cases hr
  | failed => exact absurd (Except.error.inj hr) hne
  | last => exact ⟨rfl, by simp [slept, pause]⟩
  | woken =>
    obtain ⟨_, htr⟩ := answered_cons.mp htr
    obtain ⟨⟨_, h⟩, _⟩ := answered_cons.mp htr
    cases h
  | @again n servers tr r _ _ ih =>
    obtain ⟨_, htr⟩ := answered_cons.mp htr
    obtain ⟨_, htr⟩ := answered_cons.mp htr
    obtain ⟨hreads, hslept⟩ := ih htr hr
    constructor
    · have hcons : reads (readEvent host servers :: sleepEvent interval :: tr) = reads tr + 1 := by
        simp [reads, isRead]
      omega
    · have hcons : slept (readEvent host servers :: sleepEvent interval :: tr) =
          interval + slept tr := by
        simp [slept, pause]
      rw [hcons, hslept]
      push_cast
      ring

end Polled

end Loop

/-! ## The calls before the loop -/

/-- The call that a policy makes for a server: `live_migrate` or `stop`. -/
def ask : Bool → Server → Call Unit
  | true, server => .liveMigrateServer server
  | false, server => .stopServer server

abbrev asked (migrate : Bool) (server : Server) : CallEvent := ⟨ask migrate server, .ok ()⟩

abbrev turnedDown (migrate : Bool) (server : Server) (e : Exn) : CallEvent :=
  ⟨ask migrate server, .error e⟩

/-- Either all the calls are made, in order, or one of them raises after those before it. -/
theorem each_run {migrate : Bool} {xs : List Server} :
    ∀ {tr : Trace} {r : Except Exn Unit},
      Finishes (each (fun server => Prog.request (ask migrate server)) xs) tr r →
      r = .ok () ∧ tr = xs.map (asked migrate) ∨
        ∃ ys y zs e, xs = ys ++ y :: zs ∧ tr = ys.map (asked migrate) ++ [turnedDown migrate y e] ∧
          r = .error e := by
  induction xs with
  | nil =>
    intro tr r h
    obtain ⟨rfl, rfl⟩ := finishes_done.mp h
    exact .inl ⟨rfl, rfl⟩
  | cons x xs ih =>
    intro tr r h
    simp only [each, Prog.bind_def, Prog.bind_request] at h
    obtain ⟨_, tr', rfl, hrest⟩ | ⟨e, rfl, rfl⟩ := finishes_call.mp h
    · rcases ih hrest with ⟨rfl, rfl⟩ | ⟨ys, y, zs, e, rfl, rfl, rfl⟩
      · exact .inl ⟨rfl, rfl⟩
      · exact .inr ⟨x :: ys, y, zs, e, rfl, rfl, rfl⟩
    · exact .inr ⟨[], x, xs, e, rfl, rfl, rfl⟩

/-- A run of the calls for the servers `xs` and, once they are all made, of the loop. -/
inductive Phases (migrate : Bool) (host : String) (interval : Int)
    (settled : List Server → Option Drained) (failure timeout : Exn) (n : Nat)
    (xs : List Server) : Trace → Except Exn Drained → Prop where
  | refused {ys : List Server} {y : Server} {zs : List Server} {e : Exn} :
      xs = ys ++ y :: zs →
      Phases migrate host interval settled failure timeout n xs
        (ys.map (asked migrate) ++ [turnedDown migrate y e]) (.error e)
  | polled {tr : Trace} {r : Except Exn Drained} :
      Polled host interval settled failure timeout n tr r →
      Phases migrate host interval settled failure timeout n xs (xs.map (asked migrate) ++ tr) r

theorem phases_of_finishes (migrate : Bool) {host : String} {timeout interval : Int}
    (ht : 0 < timeout) (hi : 0 < interval) {settled : List Server → Option Drained}
    {failure timedOut : Exn} {xs : List Server} {tr : Trace} {r : Except Exn Drained}
    (h : Finishes ((each (fun server => Prog.request (ask migrate server)) xs).bind fun _ =>
      (attempts timeout interval).bind fun n =>
        awaitServers host interval settled failure timedOut n) tr r) :
    Phases migrate host interval settled failure timedOut (pollBound timeout interval) xs tr r := by
  have hattempts : attempts timeout interval = pure (pollBound timeout interval) := by
    rw [attempts, if_neg (by omega), Nat.max_eq_right (Nat.succ_pos _), pollBound]
  rw [hattempts] at h
  obtain ⟨_, tr₁, tr₂, rfl, hcalls, hloop⟩ | ⟨e, hcalls, rfl⟩ := finishes_bind.mp h
  · obtain ⟨_, rfl⟩ | ⟨_, _, _, _, _, _, hr⟩ := each_run hcalls
    · exact .polled (awaitServers_polled _ hloop)
    · cases hr
  · obtain ⟨hr, _⟩ | ⟨ys, y, zs, e', rfl, rfl, hr⟩ := each_run hcalls
    · cases hr
    · cases hr
      exact .refused rfl

section Calls

variable {migrate : Bool} {xs ys : List Server} {y : Server} {e : Exn} {host : String}

theorem calls_asks (migrate : Bool) (xs : List Server) :
    migrations (xs.map (asked migrate)) = (if migrate then xs else []) ∧
      stops (xs.map (asked migrate)) = if migrate then [] else xs := by
  induction xs with
  | nil => cases migrate <;> exact ⟨rfl, rfl⟩
  | cons x xs ih =>
    obtain ⟨hm, hs⟩ := ih
    cases migrate
    · exact ⟨hm, congrArg (x :: ·) hs⟩
    · exact ⟨congrArg (x :: ·) hm, hs⟩

theorem turnedDown_asks (migrate : Bool) (y : Server) (e : Exn) :
    migrations [turnedDown migrate y e] = (if migrate then [y] else []) ∧
      stops [turnedDown migrate y e] = if migrate then [] else [y] := by
  cases migrate <;> exact ⟨rfl, rfl⟩

@[simp] theorem ask_not_read (migrate : Bool) (server : Server) :
    isRead (ask migrate server) = false := by
  cases migrate <;> rfl

@[simp] theorem pause_ask (migrate : Bool) (server : Server) (x : Except Exn Unit) :
    pause ⟨ask migrate server, x⟩ = 0 := by
  cases migrate <;> rfl

@[simp] theorem isPause_ask (migrate : Bool) (server : Server) (x : Except Exn Unit) :
    isPause ⟨ask migrate server, x⟩ = false := by
  cases migrate <;> rfl

@[simp] theorem not_showsError_ask (migrate : Bool) (server : Server) (x : Except Exn Unit) :
    ¬ ShowsError host ⟨ask migrate server, x⟩ := by
  cases migrate <;> exact id

@[simp] theorem reads_calls : reads (xs.map (asked migrate)) = 0 := by
  simp [reads, List.countP_eq_zero]

@[simp] theorem slept_calls : slept (xs.map (asked migrate)) = 0 := by
  have hzero : (pause ∘ asked migrate) = fun _ => 0 := by
    funext server
    exact pause_ask migrate server _
  rw [slept, List.map_map, hzero]
  simp

end Calls

namespace Phases

variable {migrate : Bool} {host : String} {interval : Int} {settled : List Server → Option Drained}
  {failure timeout : Exn} {n : Nat} {xs : List Server} {tr : Trace} {r : Except Exn Drained}

/-- Every server is asked at most once, in order, and all of them if no call raises. -/
theorem asks (h : Phases migrate host interval settled failure timeout n xs tr r) :
    migrations tr <+: (if migrate then xs else []) ∧ stops tr <+: (if migrate then [] else xs) ∧
      (Answered tr → migrations tr = (if migrate then xs else []) ∧
        stops tr = if migrate then [] else xs) := by
  cases h with
  | @refused ys y zs e hxs =>
    obtain ⟨hm, hs⟩ := calls_asks migrate ys
    obtain ⟨hm', hs'⟩ := turnedDown_asks migrate y e
    rw [migrations_append, stops_append, hm, hs, hm', hs', hxs]
    have hprefix : ys ++ [y] <+: ys ++ y :: zs := ⟨zs, by simp⟩
    refine ⟨?_, ?_, fun hans => ?_⟩
    · cases migrate
      · exact List.prefix_rfl
      · exact hprefix
    · cases migrate
      · exact hprefix
      · exact List.prefix_rfl
    · obtain ⟨_, hlast⟩ := answered_append.mp hans
      obtain ⟨_, ha⟩ := hlast _ List.mem_cons_self
      cases ha
  | polled hpolled =>
    obtain ⟨hm, hs⟩ := calls_asks migrate xs
    obtain ⟨hm', hs'⟩ := hpolled.asks_none
    rw [migrations_append, stops_append, hm, hs, hm', hs', List.append_nil, List.append_nil]
    exact ⟨List.prefix_rfl, List.prefix_rfl, fun _ => ⟨rfl, rfl⟩⟩

theorem reads_le (h : Phases migrate host interval settled failure timeout n xs tr r) :
    reads tr ≤ n := by
  cases h with
  | refused =>
    rw [reads_append, reads_calls]
    simp [reads]
  | polled hpolled =>
    rw [reads_append, reads_calls, Nat.zero_add]
    exact hpolled.reads_le

theorem slept_le (hi : 0 < interval)
    (h : Phases migrate host interval settled failure timeout n xs tr r) :
    slept tr ≤ ((n - 1 : Nat) : Int) * interval := by
  cases h with
  | refused =>
    rw [slept_append, slept_calls]
    simp only [slept, List.map_cons, List.map_nil, pause_ask, List.sum_cons, List.sum_nil]
    exact Int.mul_nonneg (Int.natCast_nonneg _) hi.le
  | polled hpolled =>
    rw [slept_append, slept_calls, Int.zero_add]
    exact hpolled.slept_le hi

theorem ends_awake (h : Phases migrate host interval settled failure timeout n xs tr r) :
    ∀ ev, tr.getLast? = some ev → isPause ev = false := by
  cases h with
  | @refused ys y zs e _ =>
    intro ev hev
    rw [List.getLast?_concat] at hev
    cases hev
    exact isPause_ask _ _ _
  | @polled tr r hpolled =>
    intro ev hev
    cases hlast : tr.getLast? with
    | some ev' =>
      rw [List.getLast?_append, hlast] at hev
      cases hev
      exact hpolled.ends_awake ev hlast
    | none =>
      rw [List.getLast?_eq_none_iff.mp hlast, List.append_nil] at hev
      obtain ⟨server, _, rfl⟩ := List.mem_map.mp (List.mem_of_getLast? hev)
      exact isPause_ask _ _ _

theorem settled_last (h : Phases migrate host interval settled failure timeout n xs tr r)
    {d : Drained} (hr : r = .ok d) :
    ∃ tr' servers, tr = tr' ++ [readEvent host servers] ∧
      settled (servers.filter (isOn host)) = some d := by
  cases h with
  | refused => cases hr
  | polled hpolled =>
    obtain ⟨tr', servers, rfl, hsettled⟩ := hpolled.settled_last hr
    exact ⟨_, servers, (List.append_assoc _ tr' _).symm, hsettled⟩

theorem error_last (hsettled : ∀ servers, InError host servers →
      settled (servers.filter (isOn host)) = none)
    (h : Phases migrate host interval settled failure timeout n xs tr r) {tr₁ tr₂ : Trace}
    {ev : CallEvent} (heq : tr = tr₁ ++ ev :: tr₂) (hev : ShowsError host ev) :
    tr₂ = [] ∧ r = .error failure := by
  have hcalls : ∀ ys : List Server, ev ∉ ys.map (asked migrate) := by
    intro ys hmem
    obtain ⟨server, _, rfl⟩ := List.mem_map.mp hmem
    exact not_showsError_ask _ _ _ hev
  cases h with
  | @refused ys y zs e _ =>
    have hmem : ev ∈ ys.map (asked migrate) ++ [turnedDown migrate y e] := by
      rw [heq]
      simp
    rcases List.mem_append.mp hmem with hmem | hmem
    · exact absurd hmem (hcalls ys)
    · rw [List.mem_singleton.mp hmem] at hev
      exact absurd hev (not_showsError_ask _ _ _)
  | polled hpolled =>
    -- the read is one of the loop, not one of the calls before it
    obtain ⟨tr', rfl, hrest⟩ | ⟨tr', hcut, hrest⟩ := List.append_eq_append_iff.mp heq
    · exact hpolled.error_last hsettled hrest hev
    · cases tr' with
      | nil => exact hpolled.error_last hsettled (show _ = [] ++ ev :: tr₂ from hrest.symm) hev
      | cons ev' tr' =>
        cases hrest
        exact absurd (hcut ▸ by simp) (hcalls xs)

theorem timed_out (hne : failure ≠ timeout)
    (h : Phases migrate host interval settled failure timeout n xs tr r) (htr : Answered tr)
    (hr : r = .error timeout) :
    reads tr = n ∧ slept tr = ((n - 1 : Nat) : Int) * interval := by
  cases h with
  | refused =>
    obtain ⟨_, ha⟩ := (answered_append.mp htr).2 _ List.mem_cons_self
    cases ha
  | polled hpolled =>
    rw [reads_append, reads_calls, slept_append, slept_calls, Nat.zero_add, Int.zero_add]
    exact hpolled.timed_out hne (answered_append.mp htr).2 hr

end Phases

/-! ## The whole operation -/

/-- What the first read of a run shows of the host. -/
def initialServers (host : String) : Trace → List Server
  | ⟨.servers _, .ok servers⟩ :: _ => servers.filter (isOn host)
  | _ => []

/-- The servers that the policy asks for something. -/
def toAsk (host policy asking : String) (tr : Trace) : List Server :=
  if policy = asking then initialServers host tr else []

/-- The timeout of the policy. -/
def TimedOut (policy : String) (r : Except Exn Drained) : Prop :=
  policy = "live_migrate" ∧ r = .error (.hostNotEmpty "servers did not leave host before timeout") ∨
    policy = "stop" ∧ r = .error (.hostNotEmpty "servers did not stop before timeout")

/-- A run of `drain_host` under a known policy. -/
structure DrainRun (host policy : String) (timeout interval : Int) (tr : Trace)
    (r : Except Exn Drained) : Prop where
  /-- At most once per server of the first snapshot, in order, and no other server. -/
  asks_migrate : migrations tr <+: toAsk host policy "live_migrate" tr
  asks_stop : stops tr <+: toAsk host policy "stop" tr
  asks_all : Answered tr → migrations tr = toAsk host policy "live_migrate" tr ∧
    stops tr = toAsk host policy "stop" tr
  /-- It returns right after a snapshot that shows the host drained. -/
  returns : ∀ d, r = .ok d → ∃ tr' servers, tr = tr' ++ [readEvent host servers] ∧
    ∀ server ∈ servers, isOn host server = true → policy = "stop" ∧ server.status = some "SHUTOFF"
  /-- It raises right after a later snapshot that shows a server in `ERROR`. -/
  fails : ∀ ev₀ tr₁ ev tr₂, tr = ev₀ :: tr₁ ++ ev :: tr₂ → ShowsError host ev →
    tr₂ = [] ∧ ∃ message, r = .error (.hostNotEmpty message)
  /-- One read comes before the calls. -/
  reads_le : reads tr ≤ 1 + pollBound timeout interval
  awake : ∀ ev, tr.getLast? = some ev → isPause ev = false
  slept_lt : slept tr < timeout + interval
  times_out : Answered tr → TimedOut policy r →
    reads tr = 1 + pollBound timeout interval ∧ timeout ≤ slept tr

theorem settledGone_some {host : String} {servers : List Server} {d : Drained}
    (h : settledGone host (servers.filter (isOn host)) = some d) :
    ∀ server ∈ servers, isOn host server = true → False := by
  unfold settledGone at h
  split at h
  · rename_i hempty
    intro server hs hon
    rw [forall_not_isOn hempty server hs] at hon
    cases hon
  · cases h

theorem statusText_eq_shutoff {server : Server} :
    server.statusText = "SHUTOFF" ↔ server.status = some "SHUTOFF" := by
  unfold Server.statusText
  cases server.status <;> simp

theorem settledStopped_some {host : String} {servers : List Server} {d : Drained}
    (h : settledStopped host (servers.filter (isOn host)) = some d) :
    ∀ server ∈ servers, isOn host server = true → server.status = some "SHUTOFF" := by
  unfold settledStopped at h
  split at h
  · rename_i hall
    intro server hs hon
    rw [List.all_map, List.all_eq_true] at hall
    have hstatus := hall server (List.mem_filter.mpr ⟨hs, hon⟩)
    exact statusText_eq_shutoff.mp (by simpa using hstatus)
  · cases h

theorem settledGone_error {host : String} (servers : List Server) (h : InError host servers) :
    settledGone host (servers.filter (isOn host)) = none := by
  obtain ⟨server, hs, hon, _⟩ := h
  cases hsettled : settledGone host (servers.filter (isOn host)) with
  | none => rfl
  | some d => exact (settledGone_some hsettled server hs hon).elim

theorem settledStopped_error {host : String} (servers : List Server) (h : InError host servers) :
    settledStopped host (servers.filter (isOn host)) = none := by
  obtain ⟨server, hs, hon, hstatus⟩ := h
  cases hsettled : settledStopped host (servers.filter (isOn host)) with
  | none => rfl
  | some d =>
    have hshutoff := settledStopped_some hsettled server hs hon
    rw [hstatus] at hshutoff
    exact absurd hshutoff (by decide)

/-- The name of the policy that makes these calls. -/
def policyName (migrate : Bool) : String := if migrate then "live_migrate" else "stop"

section Run

variable {migrate : Bool} {host : String} {timeout interval : Int}
  {settled : List Server → Option Drained} {timedOut : Exn} {message : String}
  {servers : List Server} {tr : Trace} {r : Except Exn Drained}

/-- The read and the phases after it are a run as described. -/
theorem drainRun_of_phases (ht : 0 < timeout) (hi : 0 < interval)
    (hsome : ∀ (servers : List Server) d, settled (servers.filter (isOn host)) = some d →
      ∀ server ∈ servers, isOn host server = true →
        policyName migrate = "stop" ∧ server.status = some "SHUTOFF")
    (herror : ∀ servers, InError host servers → settled (servers.filter (isOn host)) = none)
    (hne : Exn.hostNotEmpty message ≠ timedOut)
    (htimeout : TimedOut (policyName migrate) r → r = .error timedOut)
    (h : Phases migrate host interval settled (.hostNotEmpty message) timedOut
      (pollBound timeout interval) (servers.filter (isOn host)) tr r) :
    DrainRun host (policyName migrate) timeout interval (readEvent host servers :: tr) r := by
  have hask : (if migrate then servers.filter (isOn host) else []) =
        toAsk host (policyName migrate) "live_migrate" (readEvent host servers :: tr) ∧
      (if migrate then [] else servers.filter (isOn host)) =
        toAsk host (policyName migrate) "stop" (readEvent host servers :: tr) := by
    cases migrate <;> exact ⟨rfl, rfl⟩
  obtain ⟨hm, hs, hall⟩ := h.asks
  rw [hask.1, hask.2] at hall
  rw [hask.1] at hm
  rw [hask.2] at hs
  have hreads : reads (readEvent host servers :: tr) = 1 + reads tr := by
    simp [reads, isRead, Nat.add_comm]
  have hslept : slept (readEvent host servers :: tr) = slept tr := by
    simp [slept, pause]
  obtain ⟨hcovers, hlt⟩ := pollBound_covers ht hi
  refine ⟨hm, hs, fun hans => hall (answered_cons.mp hans).2, ?_, ?_, ?_, ?_, ?_, ?_⟩
  · intro d hr
    obtain ⟨tr', servers', rfl, hsettled⟩ := h.settled_last hr
    exact ⟨readEvent host servers :: tr', servers', rfl, hsome servers' d hsettled⟩
  · intro ev₀ tr₁ ev tr₂ heq hev
    rw [List.cons_append] at heq
    obtain ⟨hnil, hfail⟩ := h.error_last herror (List.cons.inj heq).2 hev
    exact ⟨hnil, message, hfail⟩
  · rw [hreads]
    exact Nat.add_le_add_left h.reads_le 1
  · intro ev hev
    cases hlast : tr.getLast? with
    | none =>
      rw [List.getLast?_eq_none_iff.mp hlast] at hev
      cases hev
      rfl
    | some ev' =>
      rw [List.getLast?_cons, hlast] at hev
      cases hev
      exact h.ends_awake _ hlast
  · rw [hslept]
    exact lt_of_le_of_lt (h.slept_le hi) hlt
  · intro hans hr
    obtain ⟨hn, hpauses⟩ := h.timed_out hne (answered_cons.mp hans).2 (htimeout hr)
    rw [hreads, hslept, hn, hpauses]
    exact ⟨rfl, hcovers⟩

end Run

/-- A run that ends with its first read. -/
theorem drainRun_of_read {host policy : String} {timeout interval : Int} (ht : 0 < timeout)
    (hi : 0 < interval) {x : Except Exn (List Server)} {r : Except Exn Drained}
    (hask : toAsk host policy "live_migrate" [⟨.servers host, x⟩] = [] ∧
      toAsk host policy "stop" [⟨.servers host, x⟩] = [])
    (hok : ∀ d, r = .ok d → ∃ servers, x = .ok servers ∧
      ∀ server ∈ servers, isOn host server = false)
    (hr : Answered [⟨.servers host, x⟩] → ¬ TimedOut policy r) :
    DrainRun host policy timeout interval [⟨.servers host, x⟩] r := by
  have hslept : slept [⟨.servers host, x⟩] = 0 := rfl
  refine ⟨by rw [hask.1]; exact List.prefix_rfl, by rw [hask.2]; exact List.prefix_rfl,
    fun _ => ⟨hask.1.symm, hask.2.symm⟩, ?_, ?_, ?_, ?_, by omega,
    fun hans h => absurd h (hr hans)⟩
  · intro d hd
    obtain ⟨servers, rfl, hoff⟩ := hok d hd
    refine ⟨[], servers, rfl, fun server hs hon => ?_⟩
    rw [hoff server hs] at hon
    cases hon
  · intro ev₀ tr₁ ev tr₂ heq _
    simp at heq
  · exact Nat.le_add_right 1 _
  · intro ev hev
    cases hev
    rfl

/-- A server of the host that is running. -/
def running : Server := { id := "server-1", status := "ACTIVE", hypervisorHostname := "compute-01" }

end Actions
end KollaPowerOps
