import KollaPowerOps.Lib.Effect
import Mathlib.Algebra.GroupWithZero.Nat

/-!
# Lib.Cost

What the calls of a program cost, at most.

* `Prog.Costs cost p b` : whatever its calls are answered, `p` makes calls for `b` at most.
* `spent`               : what the calls of a trace cost.
* `Steps.spent_le`      : on every way into a program no more than its bound is spent.
-/

namespace KollaPowerOps
namespace Effect

variable {Op : Type → Type} {ε α β : Type} {cost : ∀ {τ : Type}, Op τ → Nat}

def Prog.Costs (cost : ∀ {τ : Type}, Op τ → Nat) : Prog Op ε α → Nat → Prop
  | .done _, _ => True
  | .call op k, b => cost op ≤ b ∧ ∀ a, (k a).Costs cost (b - cost op)

def spent (cost : ∀ {τ : Type}, Op τ → Nat) (tr : List (Event Op ε)) : Nat :=
  (tr.map fun ev => cost ev.op).sum

theorem costs_call {τ : Type} {op : Op τ} {k : τ → Prog Op ε α} {b : Nat} :
    (Prog.call op k).Costs cost b ↔ cost op ≤ b ∧ ∀ a, (k a).Costs cost (b - cost op) := Iff.rfl

@[simp] theorem spent_nil : spent cost ([] : List (Event Op ε)) = 0 := rfl

theorem spent_cons (ev : Event Op ε) (tr : List (Event Op ε)) :
    spent cost (ev :: tr) = cost ev.op + spent cost tr := rfl

@[simp] theorem spent_append (tr₁ tr₂ : List (Event Op ε)) :
    spent cost (tr₁ ++ tr₂) = spent cost tr₁ + spent cost tr₂ := by
  simp [spent]

namespace Prog

variable {p : Prog Op ε α} {b b' : Nat}

theorem Costs.mono (h : p.Costs cost b) (hb : b ≤ b') : p.Costs cost b' := by
  induction p generalizing b b' with
  | done r => trivial
  | call op k ih =>
    obtain ⟨hop, hk⟩ := costs_call.mp h
    exact costs_call.mpr ⟨by omega, fun a => ih a (hk a) (by omega)⟩

theorem Costs.bind {f : α → Prog Op ε β} (hp : p.Costs cost b) (hf : ∀ a, (f a).Costs cost b') :
    (p.bind f).Costs cost (b + b') := by
  induction p generalizing b with
  | done r =>
    cases r with
    | ok a => exact (hf a).mono (by omega)
    | error e => trivial
  | call op k ih =>
    obtain ⟨hop, hk⟩ := costs_call.mp hp
    exact costs_call.mpr ⟨by omega, fun a => (ih a (hk a)).mono (by omega)⟩

/-- A program of which no call costs anything. -/
theorem Costs.of_uses (h : p.Uses fun op => cost op = 0) : p.Costs cost 0 := by
  induction p with
  | done r => trivial
  | call op k ih =>
    have hop : cost op = 0 := h.1
    exact costs_call.mpr ⟨by omega, fun a => (ih a (h.2 a)).mono (by omega)⟩

end Prog

theorem Steps.spent_le {p q : Prog Op ε α} {tr : List (Event Op ε)} {b : Nat} (h : Steps p tr q)
    (hp : p.Costs cost b) : spent cost tr ≤ b := by
  induction h generalizing b with
  | nil => exact Nat.zero_le b
  | @ret τ op k a tr _ _ ih =>
    obtain ⟨hop, hk⟩ := costs_call.mp hp
    have hrest : spent cost tr ≤ b - cost op := ih (hk a)
    have hsum : spent cost ((⟨op, .ok a⟩ : Event Op ε) :: tr) = cost op + spent cost tr := rfl
    omega
  | @raise τ op k e =>
    obtain ⟨hop, _⟩ := costs_call.mp hp
    exact hop

end Effect
end KollaPowerOps
