import KollaPowerOps.Actions.Locks

/-!
# Actions.LockSafety

Mutual exclusion of the host locks. Each method of a lock object is one call, and what Redis does
with it (`effect`) is a request on the table of leases (`effect_lease`), so a run of lock calls is
a run of lease requests (`LockRun.leases`) and the results on leases apply.
-/

namespace KollaPowerOps
namespace Actions

open Effect Lease

/-! ## What a method does to the store -/

/-- The answer of a method and the store after it, when Redis carries its call out. -/
def RedisHostLock.effect (lock : RedisHostLock) (s : Redis) : LockCall → Bool × Redis
  | .acquire => s.setNxPx lock.key lock.owner lock.ttlMs
  | .refresh =>
    let (n, s') := s.refreshScript lock.key lock.owner lock.ttlMs
    (n != 0, s')
  | .release =>
    let (n, s') := s.releaseScript lock.key lock.owner
    (n != 0, s')

theorem redisStep_exec {s s' s₁ : Redis} {τ : Type} {op : Call τ} {a : τ} {r : Except Exn τ}
    (h : RedisStep s ⟨op, r⟩ s') (he : s.exec op = some (a, s₁)) :
    (r = .ok a ∧ s' = s₁) ∨ ∃ e, r = .error e ∧ (s' = s₁ ∨ s' = s) := by
  cases h with
  | replied h => rw [he] at h; cases h; exact .inl ⟨rfl, rfl⟩
  | lost h => rw [he] at h; cases h; exact .inr ⟨_, rfl, .inl rfl⟩
  | dropped => exact .inr ⟨_, rfl, .inr rfl⟩
  | other h => rw [he] at h; cases h

/-- A program that makes one call of Redis and returns something computed from its answer. -/
theorem one_call {s s' s₁ : Redis} {τ α : Type} {op : Call τ} {a : τ} {f : τ → α} {tr : Trace}
    {r : Except Exn α} (h : Steps (.call op fun x => .done (.ok (f x))) tr (.done r))
    (hd : Drives RedisStep s tr s') (he : s.exec op = some (a, s₁)) :
    (r = .ok (f a) ∧ s' = s₁) ∨ ∃ e, r = .error e ∧ (s' = s₁ ∨ s' = s) := by
  cases h with
  | ret h =>
    obtain ⟨rfl, hr⟩ := h.done_inv
    cases hr
    cases hd with
    | cons hev hd =>
      cases hd
      obtain ⟨ha, hs⟩ | ⟨e, ha, _⟩ := redisStep_exec hev he
      · cases ha; exact .inl ⟨rfl, hs⟩
      · cases ha
  | raise =>
    cases hd with
    | cons hev hd =>
      cases hd
      obtain ⟨ha, _⟩ | ⟨e, ha, hs⟩ := redisStep_exec hev he
      · cases ha
      · exact .inr ⟨_, rfl, hs⟩

/-- A method answers what its effect says, or raises, with the call carried out or not. -/
theorem method_effect {lock : RedisHostLock} {c : LockCall} {s s' : Redis} {tr : Trace}
    {r : Except Exn Bool} (h : Steps (lock.method c) tr (.done r))
    (hd : Drives RedisStep s tr s') :
    (r = .ok (lock.effect s c).1 ∧ s' = (lock.effect s c).2) ∨
      ∃ e, r = .error e ∧ (s' = (lock.effect s c).2 ∨ s' = s) := by
  cases c with
  | acquire => exact one_call (f := id) h hd rfl
  | refresh => exact one_call (f := fun n => n != 0) h hd rfl
  | release => exact one_call (f := fun n => n != 0) h hd rfl

/-- The store lets the method succeed. -/
def RedisHostLock.Admitted (lock : RedisHostLock) (s : Redis) : LockCall → Prop
  | .acquire => s lock.key = none
  | .refresh => s.get lock.key = some lock.owner
  | .release => s.get lock.key = some lock.owner

/-- What a method that succeeds leaves under the key of its host. -/
def RedisHostLock.entry (lock : RedisHostLock) : LockCall → Option Entry
  | .acquire => some ⟨lock.owner, lock.ttlMs, lock.ttlMs.pos⟩
  | .refresh => some ⟨lock.owner, lock.ttlMs, lock.ttlMs.pos⟩
  | .release => none

theorem effect_admitted {lock : RedisHostLock} {s : Redis} {c : LockCall}
    (h : lock.Admitted s c) :
    lock.effect s c = (true, Function.update s lock.key (lock.entry c)) := by
  cases c with
  | acquire => simp_all [RedisHostLock.Admitted, RedisHostLock.effect, Redis.setNxPx,
      RedisHostLock.entry]
  | refresh =>
    have hget : s.get lock.key = some lock.owner := h
    obtain ⟨e, he, ho⟩ := Option.map_eq_some_iff.mp hget
    simp [RedisHostLock.effect, Redis.refreshScript, Redis.pexpire, RedisHostLock.entry, hget, he,
      ho]
  | release =>
    have hget : s.get lock.key = some lock.owner := h
    obtain ⟨e, he, ho⟩ := Option.map_eq_some_iff.mp hget
    simp [RedisHostLock.effect, Redis.releaseScript, Redis.del, RedisHostLock.entry, hget, he]

theorem effect_refused {lock : RedisHostLock} {s : Redis} {c : LockCall}
    (h : ¬ lock.Admitted s c) : lock.effect s c = (false, s) := by
  cases c with
  | acquire => simp_all [RedisHostLock.Admitted, RedisHostLock.effect, Redis.setNxPx]
  | refresh =>
    have hget : ¬ s.get lock.key = some lock.owner := h
    simp [RedisHostLock.effect, Redis.refreshScript, hget]
  | release =>
    have hget : ¬ s.get lock.key = some lock.owner := h
    simp [RedisHostLock.effect, Redis.releaseScript, hget]

/-- A method concerns the key of its host. -/
theorem effect_other (lock : RedisHostLock) (s : Redis) (c : LockCall) {key : String}
    (hk : key ≠ lock.key) : (lock.effect s c).2 key = s key := by
  by_cases h : lock.Admitted s c
  · rw [effect_admitted h]; exact Function.update_of_ne hk _ _
  · rw [effect_refused h]

/-! ## The table of leases -/

theorem leases_owned (s : Redis) (host owner : String) :
    s.leases.owned host owner = true ↔ s.get (hostKey host) = some owner := by
  rw [Table.owned_iff, Redis.get, Redis.leases]
  cases s (hostKey host) <;> simp [Entry.lease]

theorem leases_update (s : Redis) (host : String) (e : Option Entry) :
    Redis.leases (Function.update s (hostKey host) e) =
      Function.update s.leases host (e.map Entry.lease) := by
  funext host'
  by_cases h : host' = host
  · subst h; simp [Redis.leases]
  · have hkey : hostKey host' ≠ hostKey host := fun hk => h (hostKey_inj.mp hk)
    simp [Redis.leases, Function.update_of_ne h, Function.update_of_ne hkey]

theorem leases_elapse (s : Redis) (n : Nat) : (s.elapse n).leases = s.leases.elapse n := by
  funext host
  simp only [Redis.leases, Redis.elapse, Table.elapse]
  cases s (hostKey host) with
  | none => rfl
  | some e =>
    by_cases h : n < e.pttl
    · simp [h, Table.wait, Entry.lease]
    · simp [h, Table.wait, Entry.lease]

/-- What Redis does with a method is a request on the table of leases. -/
theorem effect_lease (lock : RedisHostLock) (s : Redis) (c : LockCall) :
    s.leases.perform (lock.lease c) = ((lock.effect s c).2.leases, (lock.effect s c).1) := by
  have howned := leases_owned s lock.host lock.owner
  by_cases h : lock.Admitted s c
  · rw [effect_admitted h, RedisHostLock.key, leases_update]
    cases c with
    | acquire =>
      have hkey : s (hostKey lock.host) = none := h
      have hfree : s.leases lock.host = none := by simp [Redis.leases, hkey]
      simp [Table.perform, RedisHostLock.lease, hfree, RedisHostLock.entry, Entry.lease]
    | refresh =>
      simp [Table.perform, RedisHostLock.lease, howned.mpr h, RedisHostLock.entry, Entry.lease]
    | release => simp [Table.perform, RedisHostLock.lease, howned.mpr h, RedisHostLock.entry]
  · rw [effect_refused h]
    cases c with
    | acquire =>
      have hkey : ¬ s (hostKey lock.host) = none := h
      have hfree : ¬ s.leases lock.host = none := by simp [Redis.leases, hkey]
      simp [Table.perform, RedisHostLock.lease, hfree]
    | refresh => simp [Table.perform, RedisHostLock.lease, mt howned.mp h]
    | release => simp [Table.perform, RedisHostLock.lease, mt howned.mp h]

theorem LockStep.leases {s s' : Redis} {e : LockEvent} (h : LockStep s e s') :
    Lease.Step s.leases e s'.leases := by
  cases h with
  | elapse n => rw [leases_elapse]; exact .elapse _ n
  | call lock c hp hd =>
    have hl := effect_lease lock s c
    obtain ⟨rfl, rfl⟩ | ⟨e, rfl, rfl | rfl⟩ := method_effect hp hd
    · have h := Lease.Step.replied s.leases (lock.lease c)
      rwa [hl] at h
    · have h := Lease.Step.lost s.leases (lock.lease c)
      rwa [hl] at h
    · exact .dropped _ _

theorem LockRun.leases {s₀ s : Redis} {h : List LockEvent} (hr : LockRun s₀ h s) :
    Lease.Run s₀.leases h s.leases := by
  induction hr with
  | start => exact .start
  | step _ hs ih => exact .step ih hs.leases

/-! ## Mutual exclusion -/

/-- What one step may do to the store. -/
def Guarded (s : Redis) (e : LockEvent) (s' : Redis) : Prop :=
  match e with
  | .elapse n => s' = s.elapse n
  | .request r reply =>
    (∀ key, key ≠ hostKey r.key → s' key = s key) ∧ (reply = some false → s' = s) ∧
      match r.action with
      | .acquire _ =>
        (reply = some true → s (hostKey r.key) = none) ∧ (s (hostKey r.key) ≠ none → s' = s)
      | _ =>
        (reply = some true → s.get (hostKey r.key) = some r.owner) ∧
          (s.get (hostKey r.key) ≠ some r.owner → s' = s)

theorem LockStep.guarded {s s' : Redis} {e : LockEvent} (h : LockStep s e s') :
    Guarded s e s' := by
  cases h with
  | elapse n => rfl
  | @call _ lock c tr r hp hd =>
    have hm := method_effect hp hd
    by_cases ha : lock.Admitted s c
    · have hs : s' = (lock.effect s c).2 ∨ s' = s := by
        rcases hm with ⟨_, hs⟩ | ⟨_, _, hs⟩
        · exact .inl hs
        · exact hs
      refine ⟨fun key hk => ?_, fun hr => ?_, ?_⟩
      · rcases hs with rfl | rfl
        · exact effect_other lock s c hk
        · rfl
      · -- an admitted method never answers false
        rw [effect_admitted ha] at hm
        rcases hm with ⟨rfl, _⟩ | ⟨e, rfl, _⟩ <;> cases hr
      · cases c with
        | acquire => exact ⟨fun _ => ha, fun hne => absurd ha hne⟩
        | refresh => exact ⟨fun _ => ha, fun hne => absurd ha hne⟩
        | release => exact ⟨fun _ => ha, fun hne => absurd ha hne⟩
    · rw [effect_refused ha] at hm
      have hs : s' = s := by
        rcases hm with ⟨_, hs⟩ | ⟨_, _, hs | hs⟩ <;> exact hs
      have hr : r.toOption ≠ some true := by
        rcases hm with ⟨rfl, _⟩ | ⟨_, rfl, _⟩ <;> simp [Except.toOption]
      refine ⟨fun key _ => by rw [hs], fun _ => hs, ?_⟩
      cases c with
      | acquire => exact ⟨fun h => absurd h hr, fun _ => hs⟩
      | refresh => exact ⟨fun h => absurd h hr, fun _ => hs⟩
      | release => exact ⟨fun h => absurd h hr, fun _ => hs⟩

/-- What holds after the events `h` have led to the store `s`. -/
structure Exclusive (h : List LockEvent) (s : Redis) : Prop where
  unique : ∀ host owner owner', Holds h host owner → Holds h host owner' → owner = owner'
  backed : ∀ host owner, Holds h host owner →
    ∃ e, s (hostKey host) = some e ∧ e.value = owner ∧ known h host owner ≤ e.pttl
  guarded : ∀ e s', LockStep s e s' → Guarded s e s'

/-- **Mutual exclusion.** After any run of lock calls and of time, on any store to begin with: the
lease that an owner knows of is in the store for at least as long, so no two owners hold the lock
of one host; and a step acquires only a free key, refreshes and releases only for the stored
owner, and otherwise, and for every other key, leaves the store as it is. -/
theorem lock_run_exclusive {s₀ s : Redis} {h : List LockEvent} (hr : LockRun s₀ h s) :
    Exclusive h s where
  unique _ _ _ ho ho' := hr.leases.unique ho ho'
  backed host o ho := by
    obtain ⟨l, hl, rfl, hle⟩ := hr.leases.backed host o ho
    obtain ⟨e, he, rfl⟩ := Option.map_eq_some_iff.mp hl
    exact ⟨e, he, rfl, hle⟩
  guarded _ _ hs := hs.guarded

/-- A method that is carried out and answered is a step. -/
theorem lockStep_effect (lock : RedisHostLock) (s : Redis) (c : LockCall) :
    LockStep s (.request (lock.lease c) (some (lock.effect s c).1)) (lock.effect s c).2 := by
  cases c with
  | acquire => exact .call lock .acquire (.ret .nil) (.cons (.replied rfl) .nil)
  | refresh => exact .call lock .refresh (.ret .nil) (.cons (.replied rfl) .nil)
  | release => exact .call lock .release (.ret .nil) (.cons (.replied rfl) .nil)

/-- A lock of one second on `compute-01`. -/
def secondLock (owner : String) (h : owner ≠ "") : RedisHostLock :=
  ⟨"compute-01", 1000, owner, by decide, h⟩

/-- A lock expires, another owner takes it, and the late release of the first does not end it. -/
theorem lock_run_exclusive_takeover :
    ∃ h s, Exclusive h s ∧ Holds h "compute-01" "run-b" ∧ ¬ Holds h "compute-01" "run-a" := by
  let a := secondLock "run-a" (by decide)
  let b := secondLock "run-b" (by decide)
  have h₁ := LockRun.start.step (lockStep_effect a (fun _ => none) .acquire)
  have h₂ := h₁.step (.elapse _ 1000)
  have h₃ := h₂.step (lockStep_effect b _ .acquire)
  have h₄ := h₃.step (lockStep_effect a _ .release)
  refine ⟨_, _, lock_run_exclusive h₄, ?_, ?_⟩
  · unfold Holds; decide
  · unfold Holds; decide

end Actions
end KollaPowerOps
