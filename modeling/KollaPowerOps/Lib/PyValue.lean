import KollaPowerOps.Lib.PyText

/-!
# Lib.PyValue

Python values as `yaml.safe_load` builds them, with the operations that untyped configuration
code applies to them: truth, `str`, `dict.get`, iteration, hashing and `==` on scalars. An
operation that Python refuses for a value is an `Except.error`.

`PyRuntime` stands for the two tables of the interpreter that are not spelled out here: the case
mapping of characters outside ASCII and the `repr` of containers. Every result holds for any
table; `PyRuntime.ascii` is one.
-/

namespace KollaPowerOps

open PyText

/-- A float: its value, `none` for infinities and NaN, and the text that `str` gives. -/
structure PyFloat where
  value : Option Rat
  text : String
  deriving DecidableEq

/-- Values that `yaml.safe_load` can return. A date is carried by its text. -/
inductive Value where
  | none
  | bool (b : Bool)
  | int (i : Int)
  | float (x : PyFloat)
  | str (s : String)
  | bytes (b : List UInt8)
  | date (text : String)
  | list (xs : List Value)
  | set (xs : List Value)
  | dict (kvs : List (Value × Value))

/-- A mapping, as its entries. -/
abbrev Mapping : Type := List (Value × Value)

/-- Why Python refuses an operation. -/
inductive PyError where
  | typeError (message : String)
  | attributeError (message : String)
  deriving DecidableEq, Repr

def asciiLower (s : String) : String := String.ofList (s.toList.map Char.toLower)

theorem toLower_toLower (c : Char) : c.toLower.toLower = c.toLower := by
  have hupper : ¬ (c.toLower.val ≥ 'A'.val ∧ c.toLower.val ≤ 'Z'.val) := by
    unfold Char.toLower
    split <;> grind [UInt32.toNat_add]
  conv_lhs => unfold Char.toLower
  exact dif_neg hupper

theorem asciiLower_asciiLower (s : String) : asciiLower (asciiLower s) = asciiLower s := by
  rw [asciiLower, asciiLower, String.toList_ofList, List.map_map]
  exact congrArg String.ofList (List.map_congr_left fun c _ => toLower_toLower c)

def asciiUpper (s : String) : String := String.ofList (s.toList.map Char.toUpper)

def isAscii (s : String) : Bool := s.toList.all fun c => c.toNat < 128

structure PyRuntime where
  lower : String → String
  upper : String → String
  repr : Value → String
  lower_ascii : ∀ s, isAscii s = true → lower s = asciiLower s
  upper_ascii : ∀ s, isAscii s = true → upper s = asciiUpper s

/-- The runtime that leaves everything outside ASCII as it is. -/
def PyRuntime.ascii : PyRuntime where
  lower := asciiLower
  upper := asciiUpper
  repr _ := "..."
  lower_ascii _ _ := rfl
  upper_ascii _ _ := rfl

/-- `s.strip()` -/
def pyStrip (s : String) : String := String.ofList (strip s.toList)

theorem pyBind_ok {ε α β : Type} {x : Except ε α} {f : α → Except ε β} {b : β} :
    (x >>= f) = .ok b ↔ ∃ a, x = .ok a ∧ f a = .ok b := by
  cases x with
  | ok a => simp [bind, Except.bind]
  | error e => simp [bind, Except.bind]

theorem pyPure_ok {ε α : Type} {a b : α} : (pure a : Except ε α) = .ok b ↔ a = b := by
  simp [pure, Except.pure]

theorem pyOk_bind {ε α β : Type} (a : α) (f : α → Except ε β) : (Except.ok a >>= f) = f a := rfl

namespace Value

/-- The truth of a value in a condition. -/
def truthy : Value → Bool
  | .none => false
  | .bool b => b
  | .int i => i != 0
  | .float x => x.value != some 0
  | .str s => s != ""
  | .bytes b => !b.isEmpty
  | .date _ => true
  | .list xs => !xs.isEmpty
  | .set xs => !xs.isEmpty
  | .dict kvs => !kvs.isEmpty

/-- `a or b` -/
def or (a b : Value) : Value := if a.truthy then a else b

/-- `str(v)` -/
def toStr (rt : PyRuntime) : Value → String
  | .none => "None"
  | .bool true => "True"
  | .bool false => "False"
  | .int i => toString i
  | .float x => x.text
  | .str s => s
  | .date text => text
  | v => rt.repr v

/-- The value is this text. -/
def isStr (s : String) : Value → Bool
  | .str t => t == s
  | _ => false

/-- `d.get(key)` and `d.get(key, default)` of a mapping with these entries, for a text key. -/
def lookup (kvs : List (Value × Value)) (key : String) : Option Value :=
  (kvs.find? fun kv => kv.1.isStr key).map Prod.snd

def entry (kvs : List (Value × Value)) (key : String) : Value := (lookup kvs key).getD .none

/-- `v.get(key)` -/
def get (v : Value) (key : String) : Except PyError Value :=
  match v with
  | .dict kvs => .ok (entry kvs key)
  | _ => .error (.attributeError "object has no attribute 'get'")

/-- The items that `for item in v` runs over. -/
def iter : Value → Except PyError (List Value)
  | .list xs => .ok xs
  | .set xs => .ok xs
  | .dict kvs => .ok (kvs.map Prod.fst)
  | .str s => .ok (s.toList.map fun c => .str c.toString)
  | .bytes b => .ok (b.map fun n => .int n.toNat)
  | _ => .error (.typeError "object is not iterable")

/-- The value can be a member of a set or a key of a mapping. -/
def hashable : Value → Bool
  | .list _ => false
  | .set _ => false
  | .dict _ => false
  | _ => true

/-- The number that a value denotes in a comparison. -/
def num? : Value → Option Rat
  | .bool b => some (if b then 1 else 0)
  | .int i => some i
  | .float x => x.value
  | _ => Option.none

/-- `a == b` for values that are not containers; a NaN equals nothing. -/
def scalarEq (a b : Value) : Bool :=
  match a.num?, b.num? with
  | some x, some y => x == y
  | Option.none, Option.none =>
    match a, b with
    | .none, .none => true
    | .str s, .str t => s == t
    | .bytes s, .bytes t => s == t
    | .date s, .date t => s == t
    | .float x, .float y => x.text == y.text && x.text != "nan"
    | _, _ => false
  | _, _ => false

/-- `v in {...}` for a set of texts. A set is looked up as a frozen set. -/
def isAmong (texts : List String) : Value → Except PyError Bool
  | .str s => .ok (s ∈ texts)
  | .list _ => .error (.typeError "unhashable type: 'list'")
  | .dict _ => .error (.typeError "unhashable type: 'dict'")
  | _ => .ok false

mutual

/-- `a == b` -/
def eq : Value → Value → Bool
  | .list xs, .list ys => eqItems xs ys
  | .set xs, .set ys => xs.length == ys.length && xs.all fun x => ys.any (scalarEq x)
  | .dict kvs, .dict kvs' => kvs.length == kvs'.length && eqEntries kvs kvs'
  | a, b => scalarEq a b

def eqItems : List Value → List Value → Bool
  | [], [] => true
  | x :: xs, y :: ys => eq x y && eqItems xs ys
  | _, _ => false

/-- Every entry of the first mapping is one of the second. -/
def eqEntries : List (Value × Value) → List (Value × Value) → Bool
  | [], _ => true
  | (key, v) :: kvs, kvs' =>
    (match kvs'.find? fun kv => scalarEq key kv.1 with
      | some (_, w) => eq v w
      | Option.none => false) && eqEntries kvs kvs'

end

/-- `d.get(key)` for any key. -/
def getKey (kvs : List (Value × Value)) (key : Value) : Value :=
  ((kvs.find? fun kv => scalarEq key kv.1).map Prod.snd).getD .none

/-- `d[key] = value` -/
def insert (kvs : List (Value × Value)) (key v : Value) : List (Value × Value) :=
  if kvs.any fun kv => scalarEq key kv.1 then
    kvs.map fun kv => if scalarEq key kv.1 then (kv.1, v) else kv
  else kvs ++ [(key, v)]

/-- `d.update(e)` -/
def update (kvs kvs' : List (Value × Value)) : List (Value × Value) :=
  kvs'.foldl (fun d kv => insert d kv.1 kv.2) kvs

@[simp] theorem truthy_str (s : String) : (Value.str s).truthy = (s != "") := rfl

@[simp] theorem toStr_str (rt : PyRuntime) (s : String) : (Value.str s).toStr rt = s := rfl

theorem isStr_iff {v : Value} {s : String} : v.isStr s = true ↔ v = .str s := by
  cases v <;> simp [isStr]

theorem or_of_truthy {a b : Value} (h : a.truthy = true) : a.or b = a := if_pos h

theorem or_of_not_truthy {a b : Value} (h : a.truthy = false) : a.or b = b := by
  rw [Value.or, h]; rfl

end Value

end KollaPowerOps
