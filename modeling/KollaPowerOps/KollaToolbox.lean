import KollaPowerOps.Lib.OrderedDict
import KollaPowerOps.Lib.PyRepr

/-!
# KollaToolbox

The command by which the module `kolla_toolbox` runs another module in its container.

* `generateCommand` : the command, with the arguments as `key='value'` pairs.
* `tokens`          : how such a text is split again.
* `faithful_iff`    : all arguments come through just when no apostrophe gets into a pair.
-/

namespace KollaPowerOps
namespace KollaToolbox

abbrev Text := List Char

/-! ## The command -/

/-- The text that stands for a value in its pair. -/
def valueText (printable : Char → Bool) : Data → Text
  | .dict kvs => (Data.dict kvs).dumps
  | v => v.toStr printable

/-- One pair of `_format_module_args`. -/
def formatPair (printable : Char → Bool) (e : Text × Data) : Text :=
  e.1 ++ '=' :: '\'' :: (valueText printable e.2 ++ ['\''])

/-- Letters, digits and underscores; those outside ASCII count as letters. -/
def Identifier (key : Text) : Prop :=
  key ≠ [] ∧ ∀ c ∈ key, c.isAlphanum = true ∨ c = '_' ∨ 128 ≤ c.toNat

structure Args where
  values : OrderedDict Text Data
  identifiers : ∀ key ∈ values.keys, Identifier key

def formatModuleArgs (printable : Char → Bool) (moduleArgs : Args) : List Text :=
  moduleArgs.values.entries.map (formatPair printable)

/-- The pairs as one argument, where there are some. -/
def joined? (pairs : List Text) : Option Text :=
  if pairs = [] then none else some ([' '].intercalate pairs)

/-- What the command has of the parameters of the module. -/
structure Params where
  moduleName : Text
  moduleArgs : Args
  moduleExtraVars : Args
  checkMode : Bool

def withOption (option : Text) : Option Text → List Text
  | none => []
  | some argument => [option, argument]

def generateCommand (printable : Char → Bool) (params : Params) : List Text :=
  ["ansible".toList, "localhost".toList, "-m".toList, params.moduleName] ++
    withOption "-a".toList (joined? (formatModuleArgs printable params.moduleArgs)) ++
    withOption "-e".toList (joined? (formatModuleArgs printable params.moduleExtraVars)) ++
    if params.checkMode then ["--check".toList] else []

/-! ## Reading it -/

def isBlank (c : Char) : Bool := c = ' ' || c = '\t' || c = '\n'

/-- The tokens of a text, from within or without quotes, with the token so far. Blanks separate
tokens, and what stands between apostrophes is literal; a quotation that is not closed is an
error. -/
def tokensFrom : Bool → Option Text → Text → Option (List Text)
  | false, token, [] => some token.toList
  | true, _, [] => none
  | false, token, c :: cs =>
    if isBlank c then (tokensFrom false none cs).map (token.toList ++ ·)
    else if c = '\'' then tokensFrom true (some (token.getD [])) cs
    else tokensFrom false (some (token.getD [] ++ [c])) cs
  | true, token, c :: cs =>
    if c = '\'' then tokensFrom false token cs
    else tokensFrom true (some (token.getD [] ++ [c])) cs

def tokens (s : Text) : Option (List Text) := tokensFrom false none s

/-- What an option of a command stands before. -/
def argumentOf (option : Text) : List Text → Option Text
  | o :: argument :: rest => if o = option then some argument else argumentOf option rest
  | _ => none

/-- The tokens that say what the arguments are. -/
def expected (printable : Char → Bool) (args : Args) : List Text :=
  args.values.entries.map fun e => e.1 ++ '=' :: valueText printable e.2

/-- What stands behind `ansible localhost` hands over the arguments and the extra variables, one
token for each key. -/
def Faithful (printable : Char → Bool) (params : Params) : Prop :=
  (∀ argument, argumentOf "-a".toList ((generateCommand printable params).drop 2) = some argument →
    tokens argument = some (expected printable params.moduleArgs)) ∧
  ∀ argument, argumentOf "-e".toList ((generateCommand printable params).drop 2) = some argument →
    tokens argument = some (expected printable params.moduleExtraVars)

/-- A value that brings no apostrophe: a text without one, a list without any text in it, a mapping
without one in its keys and texts, or neither of them. -/
def Plain : Data → Prop
  | .str s => '\'' ∉ s
  | .dict kvs => (Data.dict kvs).hasApostrophe = false
  | v => v.hasText = false

/-! ## Tokens -/

theorem apostrophe_mem_valueText (printable : Char → Bool) (v : Data) :
    '\'' ∉ valueText printable v ↔ Plain v := by
  have hrepr := not_congr (Data.apostrophe_mem_repr printable v)
  rw [Bool.not_eq_true] at hrepr
  cases v with
  | str s => exact Iff.rfl
  | dict kvs =>
    have hdumps := not_congr (Data.apostrophe_mem_dumps (.dict kvs))
    rwa [Bool.not_eq_true] at hdumps
  | null | bool | int | float | list => exact hrepr

/-- No token has an apostrophe. -/
theorem not_mem_of_tokensFrom {quoted : Bool} {token : Option Text} {s : Text} {ts : List Text}
    (htoken : ∀ t ∈ token, '\'' ∉ t) (h : tokensFrom quoted token s = some ts) :
    ∀ t ∈ ts, '\'' ∉ t := by
  have hsnoc : ∀ {token : Option Text} {c : Char}, (∀ t ∈ token, '\'' ∉ t) → c ≠ '\'' →
      ∀ t ∈ some (token.getD [] ++ [c]), '\'' ∉ t := by
    rintro token c htoken hc _ ⟨rfl⟩
    rw [List.mem_append, List.mem_singleton, not_or]
    refine ⟨?_, hc.symm⟩
    cases token with
    | none => exact List.not_mem_nil
    | some t => exact htoken t rfl
  fun_induction tokensFrom quoted token s generalizing ts with
  | case1 token =>
    cases h
    exact fun t ht => htoken t (Option.mem_toList.mp ht)
  | case2 token => cases h
  | case3 token c cs hblank ih =>
    obtain ⟨rest, hrest, rfl⟩ := Option.map_eq_some_iff.mp h
    rw [List.forall_mem_append]
    exact ⟨fun t ht => htoken t (Option.mem_toList.mp ht), ih nofun hrest⟩
  | case4 token cs hblank ih =>
    refine ih ?_ h
    rintro _ ⟨rfl⟩
    cases token with
    | none => exact List.not_mem_nil
    | some t => exact htoken t rfl
  | case5 token c cs hblank hc ih => exact ih (hsnoc htoken hc) h
  | case6 token cs ih => exact ih htoken h
  | case7 token c cs hc ih => exact ih (hsnoc htoken hc) h

theorem tokensFrom_word {w : Text} (hne : w ≠ []) (hw : ∀ c ∈ w, isBlank c = false ∧ c ≠ '\'')
    (token : Option Text) (s : Text) :
    tokensFrom false token (w ++ s) = tokensFrom false (some (token.getD [] ++ w)) s := by
  induction w generalizing token with
  | nil => exact absurd rfl hne
  | cons c w ih =>
    obtain ⟨⟨hblank, hc⟩, hw⟩ := List.forall_mem_cons.mp hw
    rw [List.cons_append, tokensFrom, hblank, if_neg Bool.false_ne_true, if_neg hc]
    cases w with
    | nil => rfl
    | cons c' w =>
      rw [ih (List.cons_ne_nil c' w) hw]
      simp

theorem tokensFrom_quoted {v : Text} (hv : '\'' ∉ v) (token s : Text) :
    tokensFrom true (some token) (v ++ '\'' :: s) = tokensFrom false (some (token ++ v)) s := by
  induction v generalizing token with
  | nil => simp [tokensFrom]
  | cons c v ih =>
    rw [List.mem_cons, not_or] at hv
    rw [List.cons_append, tokensFrom, if_neg (Ne.symm hv.1), ih hv.2]
    simp

theorem tokensFrom_pair {printable : Char → Bool} {e : Text × Data} (hkey : Identifier e.1)
    (hv : '\'' ∉ valueText printable e.2) (s : Text) :
    tokensFrom false none (formatPair printable e ++ s) =
      tokensFrom false (some (e.1 ++ '=' :: valueText printable e.2)) s := by
  have hpair : formatPair printable e ++ s =
      (e.1 ++ ['=']) ++ '\'' :: (valueText printable e.2 ++ '\'' :: s) := by
    simp [formatPair]
  have hchar : ∀ c : Char, c.isAlphanum = true ∨ c = '_' ∨ 128 ≤ c.toNat →
      isBlank c = false ∧ c ≠ '\'' := by
    intro c hc
    constructor
    · rw [isBlank, Bool.or_eq_false_iff, Bool.or_eq_false_iff]
      refine ⟨⟨?_, ?_⟩, ?_⟩ <;> refine decide_eq_false ?_ <;> rintro rfl <;> revert hc <;> decide
    · rintro rfl
      revert hc
      decide
  have hword : ∀ c ∈ e.1 ++ ['='], isBlank c = false ∧ c ≠ '\'' := by
    rw [List.forall_mem_append, List.forall_mem_singleton]
    exact ⟨fun c hc => hchar c (hkey.2 c hc), by decide⟩
  have hblank : isBlank '\'' = false := by decide
  rw [hpair, tokensFrom_word (by simp) hword, tokensFrom, hblank, if_neg Bool.false_ne_true,
    if_pos rfl, tokensFrom_quoted hv]
  simp

theorem tokens_pairs {printable : Char → Bool} {entries : List (Text × Data)}
    (hkeys : ∀ e ∈ entries, Identifier e.1) (hplain : ∀ e ∈ entries, Plain e.2) :
    tokens ([' '].intercalate (entries.map (formatPair printable))) =
      some (entries.map fun e => e.1 ++ '=' :: valueText printable e.2) := by
  rw [tokens]
  induction entries with
  | nil => rfl
  | cons e entries ih =>
    obtain ⟨hkey, hkeys⟩ := List.forall_mem_cons.mp hkeys
    obtain ⟨hvalue, hplain⟩ := List.forall_mem_cons.mp hplain
    have hpair := tokensFrom_pair hkey ((apostrophe_mem_valueText printable e.2).mpr hvalue)
    cases entries with
    | nil =>
      rw [List.map_singleton, List.intercalate_singleton, ← List.append_nil (formatPair _ _), hpair]
      rfl
    | cons e' entries =>
      rw [List.map_cons, List.map_cons, List.intercalate_cons_cons, List.append_assoc, hpair,
        List.singleton_append, tokensFrom, if_pos (by decide), ← List.map_cons, ih hkeys hplain]
      rfl

/-! ## The command -/

theorem joined?_tokens (printable : Char → Bool) (args : Args) :
    (∀ argument, joined? (formatModuleArgs printable args) = some argument →
      tokens argument = some (expected printable args)) ↔
      ∀ e ∈ args.values.entries, Plain e.2 := by
  rw [joined?]
  by_cases hnil : formatModuleArgs printable args = []
  · rw [formatModuleArgs, List.map_eq_nil_iff] at hnil
    simp [formatModuleArgs, hnil]
  · rw [if_neg hnil]
    constructor
    · intro h e he
      have hnone : ∀ t ∈ (none : Option Text), '\'' ∉ t := nofun
      have htoken := not_mem_of_tokensFrom hnone (h _ rfl) _ (List.mem_map_of_mem he)
      rw [List.mem_append, List.mem_cons, not_or, not_or] at htoken
      exact (apostrophe_mem_valueText printable e.2).mp htoken.2.2
    · rintro hplain _ ⟨rfl⟩
      exact tokens_pairs (fun e he => args.identifiers _ (List.mem_map_of_mem he)) hplain

theorem argumentOf_generateCommand (printable : Char → Bool) (params : Params) :
    argumentOf "-a".toList ((generateCommand printable params).drop 2) =
        joined? (formatModuleArgs printable params.moduleArgs) ∧
      argumentOf "-e".toList ((generateCommand printable params).drop 2) =
        joined? (formatModuleArgs printable params.moduleExtraVars) := by
  rw [generateCommand]
  cases joined? (formatModuleArgs printable params.moduleArgs) <;>
    cases joined? (formatModuleArgs printable params.moduleExtraVars) <;>
    cases params.checkMode <;> exact ⟨rfl, rfl⟩

/-- The arguments come through just when none of their values brings an apostrophe. -/
theorem faithful_iff (printable : Char → Bool) (params : Params) :
    Faithful printable params ↔
      (∀ e ∈ params.moduleArgs.values.entries, Plain e.2) ∧
        ∀ e ∈ params.moduleExtraVars.values.entries, Plain e.2 := by
  obtain ⟨hargs, hvars⟩ := argumentOf_generateCommand printable params
  rw [Faithful, hargs, hvars]
  exact and_congr (joined?_tokens printable params.moduleArgs)
    (joined?_tokens printable params.moduleExtraVars)

/-- A password that adds an argument. -/
def userParams : Params where
  moduleName := "mysql_user".toList
  moduleArgs := {
    values := ⟨[("password".toList, .str "x' priv='*.*:ALL".toList)], by decide⟩
    identifiers := by simp [OrderedDict.keys, Identifier] }
  moduleExtraVars := ⟨⟨[], List.nodup_nil⟩, nofun⟩
  checkMode := false

theorem password_adds_argument : ¬Faithful (fun _ => true) userParams := by
  intro h
  have htokens := h.1 "password='x' priv='*.*:ALL'".toList (by decide)
  exact absurd htokens (by decide)

end KollaToolbox
end KollaPowerOps
