import KollaPowerOps.Lib.Lease
import KollaPowerOps.OpenStack

/-!
# Actions.Locks

Host locks in Redis. Redis is a store of keys that expire; `SET NX PX` and the two scripts of the
lock are carried out at once, and a key is dropped exactly when its time to live has passed.

* `RedisHostLock` : the lock object of one owner, with its three calls.
* `Redis.exec`    : what Redis does with these calls.
* `RedisStep`     : Redis as an environment. An exception can hide a call that was carried out.
* `LockRun`       : the calls of any lock objects, and time, in any order.

The keys of the hosts form a table of leases (`Redis.leases`), and every step is a step on that
table (`LockStep.lease`).
-/

namespace KollaPowerOps
namespace Actions

open Effect Lease

/-- The key of the lock of a host. -/
def hostKey (host : String) : String := "powerops:host:" ++ host

theorem hostKey_inj {host host' : String} : hostKey host = hostKey host' ↔ host = host' :=
  String.append_right_inj _

/-! ## Redis -/

/-- The value of a key and the milliseconds it has left to live. -/
structure Entry where
  value : String
  pttl : Nat
  live : 0 < pttl

abbrev Redis : Type := String → Option Entry

namespace Redis

def get (s : Redis) (key : String) : Option String := (s key).map Entry.value

/-- `SET key value NX PX px` -/
def setNxPx (s : Redis) (key value : String) (px : ℕ+) : Bool × Redis :=
  if (s key).isNone then (true, Function.update s key (some ⟨value, px, px.pos⟩)) else (false, s)

/-- `PEXPIRE key px` -/
def pexpire (s : Redis) (key : String) (px : ℕ+) : Nat × Redis :=
  match s key with
  | some e => (1, Function.update s key (some ⟨e.value, px, px.pos⟩))
  | none => (0, s)

/-- `DEL key` -/
def del (s : Redis) (key : String) : Nat × Redis :=
  match s key with
  | some _ => (1, Function.update s key none)
  | none => (0, s)

/-- `REFRESH_SCRIPT` -/
def refreshScript (s : Redis) (key owner : String) (px : ℕ+) : Nat × Redis :=
  if s.get key = some owner then s.pexpire key px else (0, s)

/-- `RELEASE_SCRIPT` -/
def releaseScript (s : Redis) (key owner : String) : Nat × Redis :=
  if s.get key = some owner then s.del key else (0, s)

/-- The store some milliseconds later. -/
def elapse (s : Redis) (n : Nat) : Redis := fun key =>
  (s key).bind fun e => if h : n < e.pttl then some ⟨e.value, e.pttl - n, by omega⟩ else none

/-- What Redis does with a call, if the call is for Redis. -/
def exec (s : Redis) : {τ : Type} → Call τ → Option (τ × Redis)
  | _, .redisSet key value px => some (s.setNxPx key value px)
  | _, .redisRefresh key owner px => some (s.refreshScript key owner px)
  | _, .redisRelease key owner => some (s.releaseScript key owner)
  | _, _ => none

end Redis

/-- Redis as an environment. -/
inductive RedisStep : Redis → CallEvent → Redis → Prop where
  | replied {s s' : Redis} {τ : Type} {op : Call τ} {a : τ} :
      s.exec op = some (a, s') → RedisStep s ⟨op, .ok a⟩ s'
  | lost {s s' : Redis} {τ : Type} {op : Call τ} {a : τ} {e : Exn} :
      s.exec op = some (a, s') → RedisStep s ⟨op, .error e⟩ s'
  | dropped {s : Redis} {τ : Type} {op : Call τ} {e : Exn} : RedisStep s ⟨op, .error e⟩ s
  | other {s : Redis} {τ : Type} {op : Call τ} {r : Except Exn τ} :
      s.exec op = none → RedisStep s ⟨op, r⟩ s

/-! ## The lock object -/

structure RedisHostLock where
  host : String
  ttlMs : ℕ+
  owner : String
  host_ne : host ≠ ""
  owner_ne : owner ≠ ""

/-- What a lock can be asked for. -/
inductive LockCall where
  | acquire
  | refresh
  | release
  deriving DecidableEq

namespace RedisHostLock

/-- `RedisHostLock(client, host, ttl_seconds, owner)` -/
def create (host : String) (ttlSeconds : Int) (owner : String) : Except Exn RedisHostLock :=
  if h : host = "" ∨ owner = "" then
    .error (.valueError "host and owner are required")
  else if ht : ttlSeconds ≤ 0 then
    .error (.valueError "ttl_seconds must be positive")
  else
    .ok ⟨host, ⟨(ttlSeconds * 1000).toNat, by omega⟩, owner, fun hh => h (.inl hh),
      fun ho => h (.inr ho)⟩

theorem create_ok {host owner : String} {ttlSeconds : Int} {lock : RedisHostLock}
    (h : create host ttlSeconds owner = .ok lock) : lock.host = host ∧ lock.owner = owner := by
  unfold create at h
  split at h
  · cases h
  split at h
  · cases h
  · cases h; exact ⟨rfl, rfl⟩

def key (lock : RedisHostLock) : String := hostKey lock.host

def acquire (lock : RedisHostLock) : Op Bool :=
  Prog.request (.redisSet lock.key lock.owner lock.ttlMs)

def refresh (lock : RedisHostLock) : Op Bool := do
  let n ← Prog.request (.redisRefresh lock.key lock.owner lock.ttlMs)
  pure (n != 0)

def release (lock : RedisHostLock) : Op Bool := do
  let n ← Prog.request (.redisRelease lock.key lock.owner)
  pure (n != 0)

/-- The method of this name. -/
def method (lock : RedisHostLock) : LockCall → Op Bool
  | .acquire => lock.acquire
  | .refresh => lock.refresh
  | .release => lock.release

/-- The call as a request for a lease. -/
def lease (lock : RedisHostLock) (c : LockCall) : Request String String :=
  ⟨lock.host, lock.owner, match c with
    | .acquire => .acquire lock.ttlMs
    | .refresh => .refresh lock.ttlMs
    | .release => .release⟩

end RedisHostLock

/-! ## Runs -/

abbrev LockEvent : Type := Lease.Event String String

/-- A call of a lock object from its start to its end, or time. An exception is a lost reply. -/
inductive LockStep : Redis → LockEvent → Redis → Prop where
  | call {s s' : Redis} (lock : RedisHostLock) (c : LockCall) {tr : Trace} {r : Except Exn Bool} :
      Steps (lock.method c) tr (.done r) → Drives RedisStep s tr s' →
      LockStep s (.request (lock.lease c) r.toOption) s'
  | elapse (s : Redis) (n : Nat) : LockStep s (.elapse n) (s.elapse n)

inductive LockRun (s₀ : Redis) : List LockEvent → Redis → Prop where
  | start : LockRun s₀ [] s₀
  | step {h : List LockEvent} {s s' : Redis} {e : LockEvent} :
      LockRun s₀ h s → LockStep s e s' → LockRun s₀ (h ++ [e]) s'

/-! ## The table of leases -/

def Entry.lease (e : Entry) : Grant String := ⟨e.value, e.pttl, e.live⟩

/-- The leases on hosts that the store keeps. -/
def Redis.leases (s : Redis) : Table String String := fun host => (s (hostKey host)).map Entry.lease

end Actions
end KollaPowerOps
