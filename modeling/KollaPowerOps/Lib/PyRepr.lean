import KollaPowerOps.Lib.PyNumber

/-!
# Lib.PyRepr

What Python writes of the values that JSON has: `repr`, `str` and `json.dumps`. Which characters
outside ASCII are printable is a table of the interpreter.

* `Data.repr`, `Data.dumps`, `Data.str`       : the texts.
* `apostrophe_mem_repr`, `apostrophe_mem_dumps` : which values bring an apostrophe into them.
-/

namespace KollaPowerOps

/-- A float, by the texts that `repr` and `json.dumps` have for it. -/
structure FloatText where
  repr : List Char
  json : List Char
  plain : '\'' ∉ repr ∧ '\'' ∉ json

inductive Data where
  | null
  | bool (b : Bool)
  | int (i : Int)
  | float (x : FloatText)
  | str (s : List Char)
  | list (xs : List Data)
  | dict (kvs : List (List Char × Data))

/-- The last places of a number in hexadecimal digits. -/
def hexDigits : Nat → Nat → List Char
  | 0, _ => []
  | k + 1, n => hexDigits k (n / 16) ++ [Nat.digitChar (n % 16)]

def commaJoin (texts : List (List Char)) : List Char := [',', ' '].intercalate texts

/-! ## `repr` -/

def reprChar (printable : Char → Bool) (quote c : Char) : List Char :=
  if c = quote ∨ c = '\\' then ['\\', c]
  else if c = '\t' then ['\\', 't']
  else if c = '\n' then ['\\', 'n']
  else if c = '\r' then ['\\', 'r']
  else if c.toNat < 32 ∨ c.toNat = 127 then '\\' :: 'x' :: hexDigits 2 c.toNat
  else if c.toNat < 127 ∨ printable c then [c]
  else if c.toNat ≤ 0xff then '\\' :: 'x' :: hexDigits 2 c.toNat
  else if c.toNat ≤ 0xffff then '\\' :: 'u' :: hexDigits 4 c.toNat
  else '\\' :: 'U' :: hexDigits 8 c.toNat

def reprText (printable : Char → Bool) (s : List Char) : List Char :=
  let quote := if '\'' ∈ s ∧ '"' ∉ s then '"' else '\''
  quote :: (s.flatMap (reprChar printable quote) ++ [quote])

namespace Data

mutual

def repr (printable : Char → Bool) : Data → List Char
  | null => "None".toList
  | bool true => "True".toList
  | bool false => "False".toList
  | int i => PyNumber.decimal i
  | float x => x.repr
  | str s => reprText printable s
  | list xs => '[' :: (commaJoin (reprItems printable xs) ++ [']'])
  | dict kvs => '\x7b' :: (commaJoin (reprEntries printable kvs) ++ ['\x7d'])

def reprItems (printable : Char → Bool) : List Data → List (List Char)
  | [] => []
  | x :: xs => repr printable x :: reprItems printable xs

def reprEntries (printable : Char → Bool) : List (List Char × Data) → List (List Char)
  | [] => []
  | (k, v) :: kvs => (reprText printable k ++ ':' :: ' ' :: repr printable v) ::
      reprEntries printable kvs

end

end Data

/-! ## `json.dumps` -/

def dumpsUnit (n : Nat) : List Char := '\\' :: 'u' :: hexDigits 4 n

def dumpsChar (c : Char) : List Char :=
  if c = '"' ∨ c = '\\' then ['\\', c]
  else if c = '\n' then ['\\', 'n']
  else if c = '\r' then ['\\', 'r']
  else if c = '\t' then ['\\', 't']
  else if c.toNat = 12 then ['\\', 'f']
  else if c.toNat = 8 then ['\\', 'b']
  else if 32 ≤ c.toNat ∧ c.toNat < 127 then [c]
  else if c.toNat ≤ 0xffff then dumpsUnit c.toNat
  -- a surrogate pair
  else dumpsUnit (0xd800 + (c.toNat - 0x10000) / 0x400) ++
    dumpsUnit (0xdc00 + (c.toNat - 0x10000) % 0x400)

def dumpsText (s : List Char) : List Char := '"' :: (s.flatMap dumpsChar ++ ['"'])

namespace Data

mutual

def dumps : Data → List Char
  | null => "null".toList
  | bool true => "true".toList
  | bool false => "false".toList
  | int i => PyNumber.decimal i
  | float x => x.json
  | str s => dumpsText s
  | list xs => '[' :: (commaJoin (dumpsItems xs) ++ [']'])
  | dict kvs => '\x7b' :: (commaJoin (dumpsEntries kvs) ++ ['\x7d'])

def dumpsItems : List Data → List (List Char)
  | [] => []
  | x :: xs => dumps x :: dumpsItems xs

def dumpsEntries : List (List Char × Data) → List (List Char)
  | [] => []
  | (k, v) :: kvs => (dumpsText k ++ ':' :: ' ' :: dumps v) :: dumpsEntries kvs

end

/-- `str(v)` -/
def toStr (printable : Char → Bool) : Data → List Char
  | str s => s
  | v => repr printable v

/-! ## Apostrophes -/

mutual

/-- There is some text in the value, at whatever depth. -/
def hasText : Data → Bool
  | str _ => true
  | list xs => hasTextItems xs
  | dict kvs => !kvs.isEmpty
  | _ => false

def hasTextItems : List Data → Bool
  | [] => false
  | x :: xs => hasText x || hasTextItems xs

end

mutual

/-- Some text in the value, or some key, has an apostrophe. -/
def hasApostrophe : Data → Bool
  | str s => '\'' ∈ s
  | list xs => hasApostropheItems xs
  | dict kvs => hasApostropheEntries kvs
  | _ => false

def hasApostropheItems : List Data → Bool
  | [] => false
  | x :: xs => hasApostrophe x || hasApostropheItems xs

def hasApostropheEntries : List (List Char × Data) → Bool
  | [] => false
  | (k, v) :: kvs => '\'' ∈ k || hasApostrophe v || hasApostropheEntries kvs

end

end Data

theorem not_mem_hexDigits (k n : Nat) : '\'' ∉ hexDigits k n := by
  have hdigit : ∀ d < 16, Nat.digitChar d ≠ '\'' := by decide
  induction k generalizing n with
  | zero => exact List.not_mem_nil
  | succ k ih =>
    rw [hexDigits, List.mem_append, List.mem_singleton, not_or]
    exact ⟨ih _, fun heq => hdigit _ (Nat.mod_lt _ (by decide)) heq.symm⟩

theorem not_mem_decimal (i : Int) : '\'' ∉ PyNumber.decimal i := by
  have hdigits : ∀ n, '\'' ∉ Nat.toDigits 10 n := fun n hmem =>
    absurd ((PyNumber.isDigits_toDigits n).2 _ hmem) (by decide)
  cases i with
  | ofNat n => exact hdigits n
  | negSucc n => exact List.not_mem_cons_of_ne_of_not_mem (by decide) (hdigits _)

theorem mem_commaJoin {c : Char} (hc : c ∉ [',', ' ']) (texts : List (List Char)) :
    c ∈ commaJoin texts ↔ ∃ t ∈ texts, c ∈ t := by
  rw [commaJoin]
  induction texts with
  | nil => simp
  | cons t texts ih =>
    cases texts with
    | nil => simp
    | cons t' texts =>
      rw [List.intercalate_cons_cons, List.mem_append, List.mem_append, ih, or_iff_left hc]
      simp

theorem not_mem_ite {p : Prop} [Decidable p] {c : Char} {l m : List Char} (hl : c ∉ l)
    (hm : c ∉ m) : c ∉ if p then l else m := by
  split
  · exact hl
  · exact hm

theorem apostrophe_mem_dumpsChar (c : Char) : '\'' ∈ dumpsChar c ↔ c = '\'' := by
  by_cases hc : c = '\''
  · subst hc
    exact iff_of_true (by decide) rfl
  · refine iff_of_false ?_ hc
    have hunit : ∀ n, '\'' ∉ dumpsUnit n := fun n => by
      simp [dumpsUnit, not_mem_hexDigits]
    have hself : '\'' ∉ ['\\', c] ∧ '\'' ∉ [c] := by simp [Ne.symm hc]
    refine not_mem_ite hself.1 (not_mem_ite (by decide) (not_mem_ite (by decide) ?_))
    refine not_mem_ite (by decide) (not_mem_ite (by decide) (not_mem_ite (by decide) ?_))
    refine not_mem_ite hself.2 (not_mem_ite (hunit _) ?_)
    rw [List.mem_append, not_or]
    exact ⟨hunit _, hunit _⟩

theorem apostrophe_mem_dumpsText (s : List Char) : '\'' ∈ dumpsText s ↔ '\'' ∈ s := by
  simp [dumpsText, apostrophe_mem_dumpsChar]

theorem apostrophe_mem_reprText (printable : Char → Bool) (s : List Char) :
    '\'' ∈ reprText printable s := by
  rw [reprText]
  by_cases hquote : '\'' ∈ s ∧ '"' ∉ s
  · -- within double quotes an apostrophe stands as it is
    have hchar : '\'' ∈ reprChar printable '"' '\'' := List.mem_singleton.mpr rfl
    rw [if_pos hquote]
    refine List.mem_cons_of_mem _ (List.mem_append_left _ ?_)
    exact List.mem_flatMap.mpr ⟨'\'', hquote.1, hchar⟩
  · rw [if_neg hquote]
    exact List.mem_cons_self

namespace Data

theorem mem_brackets {c a b : Char} (ha : c ≠ a) (hb : c ≠ b) (hc : c ∉ [',', ' '])
    (texts : List (List Char)) :
    c ∈ a :: (commaJoin texts ++ [b]) ↔ ∃ t ∈ texts, c ∈ t := by
  rw [List.mem_cons, or_iff_right ha, List.mem_append, List.mem_singleton, or_iff_left hb,
    mem_commaJoin hc]

mutual

theorem apostrophe_mem_repr (printable : Char → Bool) :
    ∀ v : Data, '\'' ∈ v.repr printable ↔ v.hasText = true
  | null => by simp [repr, hasText]
  | bool true => by simp [repr, hasText]
  | bool false => by simp [repr, hasText]
  | int i => by simp [repr, hasText, not_mem_decimal]
  | float x => by simp [repr, hasText, x.plain.1]
  | str s => by simp [repr, hasText, apostrophe_mem_reprText]
  | list xs => by
    rw [repr, mem_brackets (by decide) (by decide) (by decide), hasText]
    exact apostrophe_mem_reprItems printable xs
  | dict [] => by simp [repr, reprEntries, commaJoin, hasText]
  | dict ((k, v) :: kvs) => by
    rw [repr, mem_brackets (by decide) (by decide) (by decide), hasText]
    refine iff_of_true ⟨_, List.mem_cons_self, ?_⟩ rfl
    exact List.mem_append_left _ (apostrophe_mem_reprText printable k)

theorem apostrophe_mem_reprItems (printable : Char → Bool) :
    ∀ xs : List Data, (∃ t ∈ reprItems printable xs, '\'' ∈ t) ↔ hasTextItems xs = true
  | [] => by simp [reprItems, hasTextItems]
  | x :: xs => by
    simp only [reprItems, List.mem_cons, exists_eq_or_imp]
    rw [hasTextItems, Bool.or_eq_true, apostrophe_mem_repr printable x,
      apostrophe_mem_reprItems printable xs]

end

mutual

theorem apostrophe_mem_dumps : ∀ v : Data, '\'' ∈ v.dumps ↔ v.hasApostrophe = true
  | null => by simp [dumps, hasApostrophe]
  | bool true => by simp [dumps, hasApostrophe]
  | bool false => by simp [dumps, hasApostrophe]
  | int i => by simp [dumps, hasApostrophe, not_mem_decimal]
  | float x => by simp [dumps, hasApostrophe, x.plain.2]
  | str s => by simp [dumps, hasApostrophe, apostrophe_mem_dumpsText]
  | list xs => by
    rw [dumps, mem_brackets (by decide) (by decide) (by decide), hasApostrophe]
    exact apostrophe_mem_dumpsItems xs
  | dict kvs => by
    rw [dumps, mem_brackets (by decide) (by decide) (by decide), hasApostrophe]
    exact apostrophe_mem_dumpsEntries kvs

theorem apostrophe_mem_dumpsItems :
    ∀ xs : List Data, (∃ t ∈ dumpsItems xs, '\'' ∈ t) ↔ hasApostropheItems xs = true
  | [] => by simp [dumpsItems, hasApostropheItems]
  | x :: xs => by
    simp only [dumpsItems, List.mem_cons, exists_eq_or_imp]
    rw [hasApostropheItems, Bool.or_eq_true, apostrophe_mem_dumps x, apostrophe_mem_dumpsItems xs]

theorem apostrophe_mem_dumpsEntries : ∀ kvs : List (List Char × Data),
    (∃ t ∈ dumpsEntries kvs, '\'' ∈ t) ↔ hasApostropheEntries kvs = true
  | [] => by simp [dumpsEntries, hasApostropheEntries]
  | (k, v) :: kvs => by
    have hcons : '\'' ∈ ':' :: ' ' :: v.dumps ↔ v.hasApostrophe = true := by
      rw [List.mem_cons, or_iff_right (by decide), List.mem_cons, or_iff_right (by decide),
        apostrophe_mem_dumps v]
    simp only [dumpsEntries, List.mem_cons, exists_eq_or_imp, List.mem_append]
    rw [hasApostropheEntries, Bool.or_eq_true, Bool.or_eq_true, decide_eq_true_eq,
      apostrophe_mem_dumpsText, ← apostrophe_mem_dumpsEntries kvs, ← hcons, List.mem_cons,
      List.mem_cons]

end

end Data

end KollaPowerOps
