import Mathlib.Data.PNat.Notation
import Mathlib.Data.PNat.Defs
import Mathlib.Logic.Function.Basic

/-!
# Lib.Lease

Leases on keys, kept in one table: who has the key, and for how long still.

* `Table.perform` : acquire a free key, refresh or release a key that the caller has.
* `Step`, `Run`   : requests of any owners and the passing of time, in any order. A reply can be
  lost, with the request carried out or not.
* `known`         : what an owner can tell of its own lease from its own replies and from the time
  that has passed.
* `Run.backed`    : while an owner knows its lease to be running, the table has it, for at least
  as long. So no two owners know a lease on one key (`Run.unique`).
-/

namespace KollaPowerOps
namespace Lease

/-- A lease that is still running. -/
structure Grant (O : Type) where
  owner : O
  left : Nat
  running : 0 < left

abbrev Table (K O : Type) : Type := K → Option (Grant O)

inductive Action where
  | acquire (duration : ℕ+)
  | refresh (duration : ℕ+)
  | release

structure Request (K O : Type) where
  key : K
  owner : O
  action : Action

inductive Event (K O : Type) where
  | request (r : Request K O) (reply : Option Bool)
  | elapse (n : Nat)

variable {K O : Type} [DecidableEq K] [DecidableEq O]

namespace Table

/-- The owner has the key. -/
def owned (t : Table K O) (k : K) (o : O) : Bool :=
  match t k with
  | some l => l.owner = o
  | none => false

/-- Carry out one request and say whether it succeeded. -/
def perform (t : Table K O) (r : Request K O) : Table K O × Bool :=
  match r.action with
  | .acquire d =>
    if (t r.key).isNone then (Function.update t r.key (some ⟨r.owner, d, d.pos⟩), true)
    else (t, false)
  | .refresh d =>
    if t.owned r.key r.owner then (Function.update t r.key (some ⟨r.owner, d, d.pos⟩), true)
    else (t, false)
  | .release =>
    if t.owned r.key r.owner then (Function.update t r.key none, true) else (t, false)

/-- A lease after some time: gone exactly when its time is over. -/
def wait (n : Nat) (l : Grant O) : Option (Grant O) :=
  if h : n < l.left then some ⟨l.owner, l.left - n, by omega⟩ else none

def elapse (t : Table K O) (n : Nat) : Table K O := fun k => (t k).bind (wait n)

omit [DecidableEq K] in
theorem owned_iff {t : Table K O} {k : K} {o : O} :
    t.owned k o = true ↔ ∃ l, t k = some l ∧ l.owner = o := by
  unfold owned
  cases t k <;> simp

/-- A request concerns one key. -/
theorem perform_other (t : Table K O) (r : Request K O) {k : K} (hk : k ≠ r.key) :
    (t.perform r).1 k = t k := by
  unfold perform
  cases r.action <;> simp only <;> split <;> simp [Function.update_of_ne hk]

/-- A running lease survives every request but its own owner's release; it is never shortened by
another owner. -/
theorem perform_keeps {t : Table K O} {r : Request K O} {k : K} {l : Grant O}
    (hl : t k = some l) (hr : r.key ≠ k ∨ r.owner ≠ l.owner) : (t.perform r).1 k = some l := by
  by_cases hk : k = r.key
  · subst hk
    have hown : t.owned r.key r.owner = false := by
      rw [Bool.eq_false_iff, ne_eq, owned_iff]
      rintro ⟨l', hl', ho⟩
      rw [hl] at hl'
      cases hl'
      exact hr.elim (fun h => h rfl) (fun h => h ho.symm)
    unfold perform
    cases r.action <;> simp [hl, hown]
  · rw [perform_other t r hk, hl]

end Table

/-- One step: a request with its reply, a request whose reply is lost, or time. -/
inductive Step : Table K O → Event K O → Table K O → Prop where
  | replied (t : Table K O) (r : Request K O) :
      Step t (.request r (some (t.perform r).2)) (t.perform r).1
  | lost (t : Table K O) (r : Request K O) : Step t (.request r none) (t.perform r).1
  | dropped (t : Table K O) (r : Request K O) : Step t (.request r none) t
  | elapse (t : Table K O) (n : Nat) : Step t (.elapse n) (t.elapse n)

inductive Run (t₀ : Table K O) : List (Event K O) → Table K O → Prop where
  | start : Run t₀ [] t₀
  | step {h : List (Event K O)} {t t' : Table K O} {e : Event K O} :
      Run t₀ h t → Step t e t' → Run t₀ (h ++ [e]) t'

/-- What an owner knows to be left of its lease after a request of its own. A successful acquire or
refresh starts it anew, a refresh without reply may have cut it, and whoever asks for a release
gives it up. -/
def Action.learn : Action → Option Bool → Nat → Nat
  | .acquire d, some true, _ => d
  | .acquire _, _, n => n
  | .refresh d, some true, _ => d
  | .refresh _, some false, n => n
  | .refresh d, none, n => min n d
  | .release, _, _ => 0

/-- What the owner knows to be left after one more event. -/
def learn (k : K) (o : O) (n : Nat) : Event K O → Nat
  | .elapse m => n - m
  | .request r reply => if r.key = k ∧ r.owner = o then r.action.learn reply n else n

/-- What the owner knows to be left after the events of a run. -/
def known (h : List (Event K O)) (k : K) (o : O) : Nat := h.foldl (learn k o) 0

/-- The owner knows its lease to be running. -/
def Holds (h : List (Event K O)) (k : K) (o : O) : Prop := 0 < known h k o

@[simp] theorem known_snoc (h : List (Event K O)) (e : Event K O) (k : K) (o : O) :
    known (h ++ [e]) k o = learn k o (known h k o) e := by
  simp [known]

/-- What an owner knows to be left, the table has. -/
def Backs (t : Table K O) (k : K) (o : O) (n : Nat) : Prop :=
  0 < n → ∃ l, t k = some l ∧ l.owner = o ∧ n ≤ l.left

omit [DecidableEq K] [DecidableEq O] in
theorem backs_mono {t : Table K O} {k : K} {o : O} {n m : Nat} (h : Backs t k o n) (hm : m ≤ n) :
    Backs t k o m := by
  intro hpos
  obtain ⟨l, hl, ho, hle⟩ := h (by omega)
  exact ⟨l, hl, ho, by omega⟩

omit [DecidableEq K] [DecidableEq O] in
theorem backs_elapse {t : Table K O} {k : K} {o : O} {n : Nat} (h : Backs t k o n) (m : Nat) :
    Backs (t.elapse m) k o (n - m) := by
  intro hn
  obtain ⟨l, hl, ho, hle⟩ := h (by omega)
  have hlt : m < l.left := by omega
  refine ⟨⟨l.owner, l.left - m, by omega⟩, ?_, ho, by simp only; omega⟩
  simp [Table.elapse, hl, Table.wait, hlt]

/-- A request of someone else, or on another key, leaves a lease as it is. -/
theorem backs_perform_other {t : Table K O} {k : K} {o : O} {n : Nat} (h : Backs t k o n)
    {r : Request K O} (hr : ¬ (r.key = k ∧ r.owner = o)) : Backs (t.perform r).1 k o n := by
  intro hn
  obtain ⟨l, hl, rfl, hle⟩ := h hn
  refine ⟨l, Table.perform_keeps hl ?_, rfl, hle⟩
  by_cases hk : r.key = k
  · exact .inr fun ho => hr ⟨hk, ho⟩
  · exact .inl hk

/-- What the caller learns from a request of its own is true, whether or not it sees the reply. -/
theorem backs_perform_self {t : Table K O} {k : K} {o : O} {a : Action} {n : Nat}
    {reply : Option Bool} (h : Backs t k o n)
    (hreply : ∀ b, reply = some b → b = (t.perform ⟨k, o, a⟩).2) :
    Backs (t.perform ⟨k, o, a⟩).1 k o (a.learn reply n) := by
  cases a with
  | release => exact fun h => absurd h (lt_irrefl 0)
  | acquire d =>
    by_cases hfree : (t k).isNone = true
    · -- the key was free, so the caller knew of no lease
      have hn : ¬ 0 < n := by
        intro hn
        obtain ⟨l, hl, _⟩ := h hn
        simp [hl] at hfree
      intro hpos
      refine ⟨⟨o, d, d.pos⟩, by simp [Table.perform, hfree], rfl, ?_⟩
      rcases reply with _ | _ | _ <;> simp only [Action.learn] at hpos ⊢ <;> omega
    · have hp : t.perform ⟨k, o, .acquire d⟩ = (t, false) := by simp [Table.perform, hfree]
      rw [hp] at hreply ⊢
      rcases reply with _ | _ | _
      · exact h
      · exact h
      · cases hreply true rfl
  | refresh d =>
    by_cases hown : t.owned k o = true
    · have hp : t.perform ⟨k, o, .refresh d⟩ =
          (Function.update t k (some ⟨o, d, d.pos⟩), true) := by simp [Table.perform, hown]
      rw [hp] at hreply ⊢
      refine fun _ => ⟨⟨o, d, d.pos⟩, by simp, rfl, ?_⟩
      rcases reply with _ | _ | _
      · exact Nat.min_le_right n d
      · cases hreply false rfl
      · exact le_refl _
    · have hp : t.perform ⟨k, o, .refresh d⟩ = (t, false) := by simp [Table.perform, hown]
      rw [hp] at hreply ⊢
      rcases reply with _ | _ | _
      · exact backs_mono h (Nat.min_le_left n d)
      · exact h
      · cases hreply true rfl

omit [DecidableEq K] [DecidableEq O] in
/-- A request that was never carried out teaches its caller nothing that is not true. -/
theorem backs_dropped {t : Table K O} {k : K} {o : O} {n : Nat} (h : Backs t k o n) (a : Action) :
    Backs t k o (a.learn none n) := by
  cases a with
  | acquire d => exact h
  | refresh d => exact backs_mono h (Nat.min_le_left n d)
  | release => exact fun h => absurd h (lt_irrefl 0)

theorem backs_step {t t' : Table K O} {e : Event K O} {k : K} {o : O} {n : Nat}
    (h : Backs t k o n) (hs : Step t e t') : Backs t' k o (learn k o n e) := by
  cases hs with
  | elapse m => exact backs_elapse h m
  | replied r =>
    rw [learn]
    split
    · obtain ⟨k', o', a⟩ := r
      rename_i hr
      obtain ⟨rfl, rfl⟩ := hr
      exact backs_perform_self h fun b hb => (Option.some.inj hb).symm
    · exact backs_perform_other h ‹_›
  | lost r =>
    rw [learn]
    split
    · obtain ⟨k', o', a⟩ := r
      rename_i hr
      obtain ⟨rfl, rfl⟩ := hr
      exact backs_perform_self h fun b hb => by cases hb
    · exact backs_perform_other h ‹_›
  | dropped r =>
    rw [learn]
    split
    · exact backs_dropped h _
    · exact h

/-- While an owner knows its lease to be running, the table has it. -/
theorem Run.backed {t₀ t : Table K O} {h : List (Event K O)} (hr : Run t₀ h t) (k : K) (o : O) :
    Backs t k o (known h k o) := by
  induction hr with
  | start => exact fun h => absurd h (lt_irrefl 0)
  | step _ hs ih => rw [known_snoc]; exact backs_step ih hs

/-- No two owners know a lease on the same key to be running. -/
theorem Run.unique {t₀ t : Table K O} {h : List (Event K O)} (hr : Run t₀ h t) {k : K} {o o' : O}
    (ho : Holds h k o) (ho' : Holds h k o') : o = o' := by
  obtain ⟨l, hl, rfl, _⟩ := hr.backed k o ho
  obtain ⟨l', hl', rfl, _⟩ := hr.backed k o' ho'
  rw [hl] at hl'
  cases hl'
  rfl

/-! ## Leases by the clock -/

omit [DecidableEq K] [DecidableEq O] in
/-- The time that passes in a list of events. -/
def elapsed : List (Event K O) → Nat
  | [] => 0
  | .elapse n :: h => n + elapsed h
  | .request _ _ :: h => elapsed h

/-- The event is not a request of this owner for this key. -/
def Foreign (k : K) (o : O) : Event K O → Prop
  | .elapse _ => True
  | .request r _ => ¬ (r.key = k ∧ r.owner = o)

theorem foldl_learn_foreign {k : K} {o : O} {h : List (Event K O)}
    (hf : ∀ e ∈ h, Foreign k o e) (n : Nat) : h.foldl (learn k o) n = n - elapsed h := by
  induction h generalizing n with
  | nil => rfl
  | cons e h ih =>
    have hrest := ih fun e' he' => hf e' (List.mem_cons_of_mem _ he')
    rw [List.foldl_cons, hrest]
    cases e with
    | elapse m => simp only [learn, elapsed]; omega
    | request r reply =>
      have hr : ¬ (r.key = k ∧ r.owner = o) := hf _ List.mem_cons_self
      simp only [learn, if_neg hr, elapsed]

/-- An owner holds its lease for as long as its last successful request asked for. -/
theorem holds_of_elapsed {k : K} {o : O} {a : Action} {d : ℕ+} {h₁ h₂ : List (Event K O)}
    (ha : a = .acquire d ∨ a = .refresh d) (hf : ∀ e ∈ h₂, Foreign k o e) (hd : elapsed h₂ < d) :
    Holds (h₁ ++ .request ⟨k, o, a⟩ (some true) :: h₂) k o := by
  have hlearn : a.learn (some true) (known h₁ k o) = d := by
    rcases ha with rfl | rfl <;> rfl
  have hknown : known (h₁ ++ .request ⟨k, o, a⟩ (some true) :: h₂) k o = d - elapsed h₂ := by
    rw [known, List.foldl_append, List.foldl_cons, foldl_learn_foreign hf, learn,
      if_pos ⟨rfl, rfl⟩, ← hlearn]
    rfl
  rw [Holds, hknown]
  omega

end Lease
end KollaPowerOps
