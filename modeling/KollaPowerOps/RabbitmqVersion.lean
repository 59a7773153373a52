import KollaPowerOps.Lib.Binary64
import KollaPowerOps.Lib.PyNumber
import KollaPowerOps.Lib.Regex

/-!
# RabbitmqVersion

The version check of the RabbitMQ role, which stands before every upgrade.

* `passes`     : the two assertions, over what `rabbitmqctl --version` prints.
* `Supported`  : the steps that an upgrade may take.
* `admits_iff` : the assertions admit just these, but for minor versions whose first two
  characters deceive and for numbers that are `3.13`, `4.0` or `4.1` as floats.
-/

namespace KollaPowerOps
namespace RabbitmqVersion

open PyNumber Regex

abbrev Text := List Char

/-! ## The filters -/

/-- The number of a text in digits, maybe with a point. -/
def floatText? (s : Text) : Option ℚ :=
  match s.splitOn '.' with
  | [a] => if IsDigits a then some (digitsValue a) else none
  | [a, b] =>
    if IsDigits (a ++ b) then some (digitsValue a + digitsValue b / 10 ^ b.length) else none
  | _ => none

/-- `value | float` -/
def toFloat (s : Text) : ℚ := (floatText? s).elim 0 Binary64.round

/-- `value | int`; what is no integer is read as a float. -/
def toInt (s : Text) : ℤ :=
  match parseInt s with
  | some i => i
  | none => ⌊toFloat s⌋

def anyChar (c : Char) : Bool := c ≠ '\n'

def notDot (c : Char) : Bool := c ≠ '.'

/-- `^[0-9]+` -/
def majorPattern : Pattern := seqs [.start, .many Char.isDigit]

/-- `(?<=.)[^.].` -/
def minorPattern : Pattern := seqs [.behind anyChar, .char notDot, .char anyChar]

/-- `.[^.]+$` -/
def patchPattern : Pattern := seqs [.char anyChar, .many notDot, .stop]

def versionMajor (stdout : Text) : Option Text := (search? majorPattern stdout).map Match.read

def versionMinor (stdout : Text) : Option Text := (search? minorPattern stdout).map Match.read

def version (stdout : Text) : Text := remove patchPattern stdout

/-! ## The assertions -/

/-- `Check if running RabbitMQ is at most one version behind` -/
def oneBehind (current new : Text) : Prop :=
  versionMajor current = versionMajor new ∧
    (versionMinor new).elim 0 toInt - (versionMinor current).elim 0 toInt ≤ 1 ∨
  toFloat (version new) = Binary64.round 4 ∧ toFloat (version current) = Binary64.round (313 / 100) ∨
  toFloat (version new) = Binary64.round (41 / 10) ∧
    toFloat (version current) = Binary64.round (313 / 100)

structure Version where
  major : ℕ
  minor : ℕ
  patch : ℕ
  deriving DecidableEq

/-- The order of semantic versions. -/
def Version.le (v w : Version) : Prop :=
  v.major < w.major ∨ v.major = w.major ∧
    (v.minor < w.minor ∨ v.minor = w.minor ∧ v.patch ≤ w.patch)

/-- A semantic version without labels. -/
def semver? (s : Text) : Option Version :=
  match s.splitOn '.' with
  | [a, b, c] =>
    if (IsDigits a ∧ Canonical a) ∧ (IsDigits b ∧ Canonical b) ∧ IsDigits c ∧ Canonical c then
      some ⟨digitsValue a, digitsValue b, digitsValue c⟩
    else none
  | _ => none

/-- `Catch when RabbitMQ is being downgraded`; what is no version is an error. -/
def notDowngraded (current new : Text) : Prop :=
  ∃ v w, semver? current = some v ∧ semver? (PyText.strip new) = some w ∧ v.le w

def passes (current new : Text) : Prop := oneBehind current new ∧ notDowngraded current new

/-! ## What they are to admit -/

def digits (n : ℕ) : Text := Nat.toDigits 10 n

def Version.text (v : Version) : Text := digits v.major ++ '.' :: (digits v.minor ++ '.' :: digits v.patch)

/-- One minor version at most, or from 3.13 to 4.0 or 4.1. -/
def Supported (v w : Version) : Prop :=
  w.major = v.major ∧ w.minor ≤ v.minor + 1 ∨
    (v.major = 3 ∧ v.minor = 13) ∧ w.major = 4 ∧ (w.minor = 0 ∨ w.minor = 1)

/-- The assertions admit a step just when they should. The new version comes with the newlines of
the log of a container. -/
def Correct (v w : Version) (newlines : ℕ) : Prop :=
  passes v.text (w.text ++ List.replicate newlines '\n') ↔ v.le w ∧ Supported v w

/-! ## Where they deceive -/

/-- The first two digits, or the one that there is. -/
def leadingTwo (n : ℕ) : ℕ := n / 10 ^ ((digits n).length - 2)

/-- `X.Y` as a number. -/
def Version.decimal (v : Version) : ℚ := v.major + v.minor / 10 ^ (digits v.minor).length

/-- Minor versions are compared by their first two digits; behind a major version of more digits
they are not compared at all. -/
def MinorSlip (v w : Version) : Prop :=
  w.major = v.major ∧ v.minor + 1 < w.minor ∧
    (10 ≤ v.major ∨ leadingTwo w.minor ≤ leadingTwo v.minor + 1)

/-- As floats the versions are those of the step from 3.13, but they are others. -/
def FloatSlip (v w : Version) : Prop :=
  v.le w ∧ Binary64.round v.decimal = Binary64.round (313 / 100) ∧
    (Binary64.round w.decimal = Binary64.round 4 ∨
      Binary64.round w.decimal = Binary64.round (41 / 10)) ∧
    ¬((v.major = 3 ∧ v.minor = 13) ∧ w.major = 4 ∧ (w.minor = 0 ∨ w.minor = 1))

/-! ## Digits -/

theorem digits_spec (n : ℕ) : IsDigits (digits n) := isDigits_toDigits n

theorem plain_of_isDigit {c : Char} (hc : c.isDigit = true) :
    c ≠ '.' ∧ c ≠ '\n' ∧ c ≠ '_' ∧ PyText.isSpace c = false := by
  obtain ⟨hlow, hhigh⟩ := isDigit_bounds hc
  refine ⟨?_, ?_, ?_, ?_⟩
  · rintro rfl
    exact absurd hlow (by decide)
  · rintro rfl
    exact absurd hlow (by decide)
  · rintro rfl
    exact absurd hhigh (by decide)
  · simp only [PyText.isSpace, Bool.or_eq_false_iff, Bool.and_eq_false_iff,
      decide_eq_false_iff_not, beq_eq_false_iff_ne]
    omega

theorem dot_not_mem {w : Text} (hw : IsDigits w) : '.' ∉ w := fun hmem =>
  (plain_of_isDigit (hw.2 _ hmem)).1 rfl

/-- The first two characters of a number before a point. -/
theorem take_two {w : Text} (hw : IsDigits w) (t : Text) : ∃ c d rest,
    w ++ '.' :: t = c :: d :: rest ∧ (w ++ ['.']).take 2 = [c, d] ∧ c ≠ '.' ∧ d ≠ '\n' := by
  obtain ⟨hne, hdigits⟩ := hw
  match w, hne, hdigits with
  | [c], _, hdigits =>
    have hc := plain_of_isDigit (hdigits c List.mem_cons_self)
    exact ⟨c, '.', t, rfl, rfl, hc.1, by decide⟩
  | c :: d :: w, _, hdigits =>
    have hc := plain_of_isDigit (hdigits c List.mem_cons_self)
    have hd := plain_of_isDigit (hdigits d (List.mem_cons_of_mem _ List.mem_cons_self))
    exact ⟨c, d, w ++ '.' :: t, rfl, rfl, hc.1, hd.2.1⟩

/-! ## What the expressions find -/

theorem run_minor_dot (b : Option Char) (s : Text) : run minorPattern b ('.' :: s) = [] := by
  simp [minorPattern, seqs, run_seq, run_behind, run_char_cons, notDot]

theorem run_minor {b c d : Char} (hb : b ≠ '\n') (hc : c ≠ '.') (hd : d ≠ '\n') (s : Text) :
    (run minorPattern (some b) (c :: d :: s)).head? = some ⟨[c, d], [], s⟩ := by
  simp [minorPattern, seqs, run_seq, run_behind, run_char_cons, run_empty, anyChar, notDot, hb, hc,
    hd]

theorem search_minor {a : Char} {s : Text} :
    search? minorPattern (a :: s) = searchFrom minorPattern (some a) s := by
  have hnone : run minorPattern none (a :: s) = [] := by
    simp [minorPattern, seqs, run_seq, run_behind]
  rw [search?, searchFrom, hnone]
  rfl

theorem digits_small {n : ℕ} (hn : n < 10) : ∃ c, digits n = [c] :=
  ⟨Nat.digitChar n, Nat.toDigits_of_lt_base hn⟩

theorem versionMinor_small {v : Version} (hv : v.major < 10) (e : Text) :
    versionMinor (v.text ++ e) = some ((digits v.minor ++ ['.']).take 2) := by
  obtain ⟨a, ha⟩ := digits_small hv
  obtain ⟨c, d, rest, hrest, htake, hc, hd⟩ := take_two (digits_spec v.minor) (digits v.patch ++ e)
  have htext : v.text ++ e = a :: '.' :: c :: d :: rest := by
    rw [Version.text, ha, ← hrest]
    simp
  rw [versionMinor, htext, search_minor, searchFrom, run_minor_dot, List.head?_nil, Option.none_or,
    searchFrom, run_minor (by decide) hc hd, htake]
  rfl

/-- Behind a major version of several digits the minor one is not reached. -/
theorem versionMinor_large {v : Version} (hv : 10 ≤ v.major) (e : Text) :
    versionMinor (v.text ++ e) = some (((digits v.major).tail ++ ['.']).take 2) := by
  have hlength : 1 < (digits v.major).length := by
    by_contra hle
    have := (Nat.length_toDigits_le_iff (b := 10) (by decide) (by decide)).mp (not_lt.mp hle)
    omega
  obtain ⟨hne, hdigits⟩ := digits_spec v.major
  obtain ⟨a, w, hw⟩ := List.exists_cons_of_ne_nil hne
  rw [hw] at hlength hdigits
  have htail : IsDigits w :=
    ⟨fun hnil => by simp [hnil] at hlength, (List.forall_mem_cons.mp hdigits).2⟩
  obtain ⟨c, d, rest, hrest, htake, hc, hd⟩ :=
    take_two htail (digits v.minor ++ '.' :: (digits v.patch ++ e))
  have ha := plain_of_isDigit (hdigits a List.mem_cons_self)
  have htext : v.text ++ e = a :: c :: d :: rest := by
    rw [Version.text, hw, ← hrest]
    simp
  rw [versionMinor, htext, search_minor, searchFrom, run_minor ha.2.1 hc hd, hw, List.tail_cons,
    htake]
  rfl

theorem searchFrom_here {r : Pattern} {b : Option Char} {s : Text} {m : Match}
    (h : (run r b s).head? = some m) : searchFrom r b s = some m := by
  cases s with
  | nil => exact h
  | cons c s =>
    rw [searchFrom, h]
    rfl

theorem versionMajor_text (v : Version) (e : Text) :
    versionMajor (v.text ++ e) = some (digits v.major) := by
  obtain ⟨hne, hdigits⟩ := digits_spec v.major
  have htext : v.text ++ e =
      digits v.major ++ '.' :: (digits v.minor ++ '.' :: (digits v.patch ++ e)) := by
    simp [Version.text]
  have hdot : ∀ c ∈ ('.' :: (digits v.minor ++ '.' :: (digits v.patch ++ e))).head?,
      c.isDigit = false := by
    rintro _ ⟨rfl⟩
    decide
  have hstart : (run .start none (v.text ++ e)).head? = some ⟨[], [], v.text ++ e⟩ := rfl
  have hmany := head?_runMany hne hdigits hdot
  rw [← htext] at hmany
  have hrun := @head?_run_seq (.many Char.isDigit) .empty none _ _ _ hmany rfl
  rw [List.append_nil] at hrun
  have hsearch : search? majorPattern (v.text ++ e) = some ⟨digits v.major, [],
      '.' :: (digits v.minor ++ '.' :: (digits v.patch ++ e))⟩ :=
    searchFrom_here (head?_run_seq hstart hrun)
  rw [versionMajor, hsearch]
  rfl

/-! ## Cutting off the patch version -/

theorem run_patch_none {b : Option Char} {c : Char} {s : Text} (hdot : '.' ∈ s) :
    run patchPattern b (c :: s) = [] := by
  refine List.eq_nil_iff_forall_not_mem.mpr fun m hm => ?_
  obtain ⟨m₁, h₁, _, k₁, rfl⟩ := mem_run_seq.mp hm
  obtain ⟨m₂, h₂, _, k₂, rfl⟩ := mem_run_seq.mp k₁
  obtain ⟨m₃, h₃, _, -, rfl⟩ := mem_run_seq.mp k₂
  obtain ⟨a, -, hs, -⟩ := mem_run_char.mp h₁
  obtain ⟨-, hread, -, hrest⟩ := mem_runMany.mp h₂
  obtain ⟨rfl, htail⟩ := List.cons.inj hs
  rw [htail, hrest, List.mem_append] at hdot
  rcases hdot with hdot | hdot
  · exact absurd (hread _ hdot) (by decide)
  · rw [run_stop] at h₃
    split at h₃
    · rename_i hstop
      rcases hstop with hstop | hstop
      · rw [hstop] at hdot
        cases hdot
      · rw [hstop] at hdot
        revert hdot
        decide
    · cases h₃

theorem run_patch {b : Option Char} {w : Text} (hne : w ≠ []) (hw : '.' ∉ w) :
    (run patchPattern b ('.' :: w)).head? = some ⟨'.' :: w, [], []⟩ := by
  have hplain : ∀ c ∈ w, notDot c = true := fun c hc => decide_eq_true fun heq => hw (heq ▸ hc)
  have hmany := head?_runMany (s := []) hne hplain nofun
  rw [List.append_nil] at hmany
  have hstop : (run (.seq .stop .empty) (w.getLast?.or (some '.')) []).head? = some ⟨[], [], []⟩ := rfl
  have hrest := head?_run_seq (r := .many notDot) (b := some '.') hmany hstop
  rw [List.append_nil] at hrest
  have hchar : (run (.char anyChar) b ('.' :: w)).head? = some ⟨['.'], [], w⟩ := rfl
  exact head?_run_seq hchar hrest

theorem removeFrom_patch {b : Option Char} {s w : Text} (hne : w ≠ []) (hw : '.' ∉ w) :
    removeFrom patchPattern 0 b (s ++ '.' :: w) = s := by
  induction s generalizing b with
  | nil =>
    rw [List.nil_append, removeFrom, run_patch hne hw]
    exact removeFrom_all patchPattern _ (by simp)
  | cons c s ih =>
    rw [List.cons_append, removeFrom_keep (run_patch_none (by simp)), ih]

theorem version_text (v : Version) (newlines : ℕ) :
    version (v.text ++ List.replicate newlines '\n') = digits v.major ++ '.' :: digits v.minor := by
  have htext : v.text ++ List.replicate newlines '\n' = (digits v.major ++ '.' :: digits v.minor) ++
      '.' :: (digits v.patch ++ List.replicate newlines '\n') := by
    simp [Version.text]
  rw [version, remove, htext, removeFrom_patch (by simp [(digits_spec v.patch).1])]
  rw [List.mem_append, not_or]
  exact ⟨dot_not_mem (digits_spec v.patch), by simp [List.mem_replicate]⟩

/-! ## Numbers -/

theorem digits_append_take {n : ℕ} (hn : 10 ≤ n) : (digits n ++ ['.']).take 2 = (digits n).take 2 := by
  have hlength : 2 ≤ (digits n).length := by
    by_contra hle
    have := (Nat.length_toDigits_le_iff (b := 10) (n := n) (k := 1) (by decide) (by decide)).mp
      (by rw [digits] at hle; omega)
    omega
  rw [List.take_append_of_le_length hlength]

theorem digitsValue_lt {ds : Text} (hds : ∀ c ∈ ds, c.isDigit = true) :
    digitsValue ds < 10 ^ ds.length := by
  induction ds using List.reverseRecOn with
  | nil => decide
  | append_singleton ds c ih =>
    rw [List.forall_mem_append, List.forall_mem_singleton] at hds
    have hlt := ih hds.1
    obtain ⟨hlow, hhigh⟩ := isDigit_bounds hds.2
    rw [digitsValue_snoc, List.length_append, List.length_singleton, Nat.pow_succ]
    omega

theorem digitsValue_take (n : ℕ) : digitsValue ((digits n).take 2) = leadingTwo n := by
  have hsplit := digitsValue_append ((digits n).take 2) ((digits n).drop 2)
  have hvalue : digitsValue (digits n) = n := digitsValue_toDigits n
  rw [List.take_append_drop, hvalue, List.length_drop] at hsplit
  have hdrop : ∀ c ∈ (digits n).drop 2, c.isDigit = true := fun c hc =>
    (digits_spec n).2 c (List.mem_of_mem_drop hc)
  have hlt := digitsValue_lt hdrop
  rw [List.length_drop] at hlt
  rw [leadingTwo]
  generalize digitsValue ((digits n).take 2) = front at *
  generalize (digits n).length - 2 = k at *
  rw [hsplit, Nat.mul_comm, Nat.mul_add_div (Nat.pow_pos (by decide)), Nat.div_eq_of_lt hlt,
    Nat.add_zero]

theorem toInt_minor (n : ℕ) : toInt ((digits n ++ ['.']).take 2) = leadingTwo n := by
  by_cases hn : n < 10
  · -- a digit and the point: no integer, but a float
    have hparse : ∀ n < 10, parseInt ((digits n ++ ['.']).take 2) = none ∧ leadingTwo n = n := by
      decide
    obtain ⟨hnone, hleading⟩ := hparse n hn
    obtain ⟨c, hc⟩ := digits_small hn
    have hvalue : digitsValue [c] = n := by
      rw [← hc]
      exact digitsValue_toDigits n
    have hdigits : IsDigits [c] := hc ▸ digits_spec n
    have hdigit : IsDigits ([c] ++ []) := hdigits
    have htext : (digits n ++ ['.']).take 2 = [c] ++ '.' :: [] := by
      rw [hc]
      rfl
    have hempty : digitsValue [] = 0 := rfl
    have hround : Binary64.round n = n := by
      have hdyadic := Binary64.round_dyadic (m := n) (by omega) 0
      rwa [zpow_zero, mul_one] at hdyadic
    have hfloat : toFloat ([c] ++ '.' :: []) = n := by
      rw [toFloat, floatText?, List.splitOn_append_cons_self_of_not_mem
        (dot_not_mem hdigits), List.splitOn_nil]
      dsimp only
      rw [if_pos hdigit, hvalue, Option.elim_some, hempty, Nat.cast_zero, zero_div, add_zero, hround]
    rw [toInt, hnone, htext, hfloat, hleading]
    exact Int.floor_natCast n
  · have hdigits : IsDigits ((digits n).take 2) := by
      refine ⟨?_, fun c hc => (digits_spec n).2 c (List.mem_of_mem_take hc)⟩
      simp [(digits_spec n).1]
    rw [digits_append_take (not_lt.mp hn), toInt, parseInt_digits hdigits, digitsValue_take]

theorem toFloat_version (v : Version) :
    toFloat (digits v.major ++ '.' :: digits v.minor) = Binary64.round v.decimal := by
  have hmajor := dot_not_mem (digits_spec v.major)
  have hminor := dot_not_mem (digits_spec v.minor)
  have hboth : IsDigits (digits v.major ++ digits v.minor) := by
    refine ⟨by simp [(digits_spec v.major).1], ?_⟩
    rw [List.forall_mem_append]
    exact ⟨(digits_spec v.major).2, (digits_spec v.minor).2⟩
  have hvalue : ∀ n, digitsValue (digits n) = n := digitsValue_toDigits
  rw [toFloat, floatText?, List.splitOn_append_cons_self_of_not_mem hmajor,
    List.splitOn_eq_singleton hminor]
  dsimp only
  rw [if_pos hboth, hvalue, hvalue]
  rfl

theorem semver_text (v : Version) : semver? v.text = some v := by
  have hspec : ∀ n, IsDigits (digits n) ∧ Canonical (digits n) := fun n =>
    ⟨digits_spec n, canonical_toDigits n⟩
  have hvalue : ∀ n, digitsValue (digits n) = n := digitsValue_toDigits
  rw [semver?, Version.text,
    List.splitOn_append_cons_self_of_not_mem (dot_not_mem (digits_spec v.major)),
    List.splitOn_append_cons_self_of_not_mem (dot_not_mem (digits_spec v.minor)),
    List.splitOn_eq_singleton (dot_not_mem (digits_spec v.patch))]
  dsimp only
  rw [if_pos ⟨hspec _, hspec _, hspec _⟩, hvalue, hvalue, hvalue]

theorem strip_text (v : Version) (newlines : ℕ) :
    PyText.strip (v.text ++ List.replicate newlines '\n') = v.text := by
  have hspace : ∀ c ∈ v.text, PyText.isSpace c = false := by
    have hdigits : ∀ n, ∀ c ∈ digits n, PyText.isSpace c = false := fun n c hc =>
      (plain_of_isDigit ((digits_spec n).2 c hc)).2.2.2
    rw [Version.text]
    simp only [List.forall_mem_append, List.forall_mem_cons]
    exact ⟨hdigits _, by decide, hdigits _, by decide, hdigits _⟩
  refine PyText.strip_append_spaces ⟨fun c hc => ?_, fun c hc => ?_⟩ (fun c hc => ?_) ?_
  · exact hspace c (List.mem_of_mem_head? hc)
  · exact hspace c (List.mem_of_mem_getLast? hc)
  · rw [List.eq_of_mem_replicate hc]
    decide
  · simp [Version.text]

/-! ## The assertions on versions -/

theorem notDowngraded_text (v w : Version) (newlines : ℕ) :
    notDowngraded v.text (w.text ++ List.replicate newlines '\n') ↔ v.le w := by
  rw [notDowngraded, strip_text, semver_text, semver_text]
  simp

/-- The step from 3.13, as far as floats tell. -/
def Coincide (v w : Version) : Prop :=
  Binary64.round v.decimal = Binary64.round (313 / 100) ∧
    (Binary64.round w.decimal = Binary64.round 4 ∨
      Binary64.round w.decimal = Binary64.round (41 / 10))

theorem oneBehind_text (v w : Version) (newlines : ℕ) :
    oneBehind v.text (w.text ++ List.replicate newlines '\n') ↔
      (w.major = v.major ∧ (10 ≤ v.major ∨ leadingTwo w.minor ≤ leadingTwo v.minor + 1)) ∨
        Coincide v w := by
  have hv : v.text = v.text ++ List.replicate 0 '\n' := (List.append_nil _).symm
  have hinj : ∀ {m n}, digits m = digits n ↔ m = n := by
    refine fun {m n} => ⟨fun h => ?_, congrArg digits⟩
    have hvalue := congrArg digitsValue h
    rwa [digits, digits, digitsValue_toDigits, digitsValue_toDigits] at hvalue
  rw [oneBehind, hv, versionMajor_text, versionMajor_text, version_text, version_text,
    toFloat_version, toFloat_version, Option.some_inj, hinj, Coincide]
  refine or_congr ?_ (by tauto)
  rw [eq_comm]
  refine and_congr_right fun hmajor => ?_
  by_cases hsmall : v.major < 10
  · rw [versionMinor_small hsmall, versionMinor_small (hmajor ▸ hsmall), Option.elim_some,
      Option.elim_some, toInt_minor, toInt_minor, or_iff_right (not_le.mpr hsmall)]
    omega
  · have hlarge := not_lt.mp hsmall
    rw [versionMinor_large hlarge, versionMinor_large (hmajor ▸ hlarge), hmajor, sub_self]
    exact iff_of_true (by decide) (.inl hlarge)

/-! ## Floats -/

theorem decimal_bounds (v : Version) :
    (v.major : ℚ) ≤ v.decimal ∧ v.decimal < v.major + 1 ∧
      v.decimal * 10 ^ (digits v.minor).length =
        v.major * 10 ^ (digits v.minor).length + v.minor := by
  have hlt := digitsValue_lt (digits_spec v.minor).2
  have hvalue : digitsValue (digits v.minor) = v.minor := digitsValue_toDigits v.minor
  rw [hvalue] at hlt
  have hpow : (0 : ℚ) < 10 ^ (digits v.minor).length := by positivity
  have hlt' : (v.minor : ℚ) < 10 ^ (digits v.minor).length := by exact_mod_cast hlt
  rw [Version.decimal]
  refine ⟨?_, ?_, ?_⟩
  · have : (0 : ℚ) ≤ v.minor / 10 ^ (digits v.minor).length := by positivity
    linarith
  · have := (div_lt_one hpow).mpr hlt'
    linarith
  · rw [add_mul, div_mul_cancel₀ _ hpow.ne']

/-- A number of 64ths below 8 is a float. -/
theorem round_64ths {m : ℕ} (hm : m < 2 ^ 53) : Binary64.round (m / 64) = m / 64 := by
  have h := Binary64.round_dyadic hm (-6)
  have hpow : (2 : ℚ) ^ (-6 : ℤ) = 1 / 64 := by norm_num
  rwa [hpow, mul_one_div] at h

/-- Numbers between which there are two different 64ths have different floats. -/
theorem round_lt_of_64ths {p q : ℚ} (m n : ℕ) (hn : n < 2 ^ 53) (hmn : m < n) (hp : 0 ≤ p)
    (hpm : p ≤ m / 64) (hnq : n / 64 ≤ q) : Binary64.round p < Binary64.round q := by
  refine Binary64.round_lt hp hpm ?_ hnq (round_64ths (hmn.trans hn)) (round_64ths hn)
  have : (m : ℚ) < n := by exact_mod_cast hmn
  linarith

theorem decimal_of_round {v : Version} {q a b : ℚ} (m n m' n' : ℕ) (hn : n < 2 ^ 53)
    (hn' : n' < 2 ^ 53) (hmn : m < n) (hmn' : m' < n') (ha : a ≤ m / 64) (hq : n / 64 ≤ q)
    (hq' : q ≤ m' / 64) (hb : n' / 64 ≤ b) (h : Binary64.round v.decimal = Binary64.round q) :
    a < v.decimal ∧ v.decimal < b := by
  have hnonneg : 0 ≤ v.decimal := (Nat.cast_nonneg _).trans (decimal_bounds v).1
  constructor
  · by_contra hle
    have := round_lt_of_64ths m n hn hmn hnonneg ((not_lt.mp hle).trans ha) hq
    exact this.ne h
  · by_contra hle
    have hqnonneg : 0 ≤ q := le_trans (by positivity) hq
    have := round_lt_of_64ths m' n' hn' hmn' hqnonneg hq' (hb.trans (not_lt.mp hle))
    exact this.ne h.symm

theorem length_digits_mono {m n : ℕ} (h : m ≤ n) : (digits m).length ≤ (digits n).length := by
  have hpos : 0 < (digits n).length := Nat.length_toDigits_pos
  rw [digits, Nat.length_toDigits_le_iff (by decide) hpos]
  have hn := (Nat.length_toDigits_le_iff (b := 10) (n := n) (by decide) hpos).mp le_rfl
  exact lt_of_le_of_lt h hn

/-- The bounds on `X.Y`, as bounds on `Y`. -/
theorem minor_of_decimal {v : Version} {a b : ℚ} (ha : v.major + a < v.decimal)
    (hb : v.decimal < v.major + b) :
    a * 10 ^ (digits v.minor).length < v.minor ∧ v.minor < b * 10 ^ (digits v.minor).length := by
  have hpow : (0 : ℚ) < 10 ^ (digits v.minor).length := by positivity
  have hdecimal := (decimal_bounds v).2.2
  have hlow := mul_lt_mul_of_pos_right ha hpow
  have hhigh := mul_lt_mul_of_pos_right hb hpow
  rw [hdecimal, add_mul] at hlow hhigh
  exact ⟨by linarith, by linarith⟩

/-- A version that is `3.13` as a float. -/
theorem minor_of_313 {v : Version} (h : Binary64.round v.decimal = Binary64.round (313 / 100)) :
    v.major = 3 ∧ 5 * v.minor < 10 ^ (digits v.minor).length ∧
      10 ^ (digits v.minor).length < 10 * v.minor := by
  obtain ⟨hlow, hhigh⟩ := decimal_of_round (v := v) (a := 31 / 10) (b := 16 / 5) 199 200 201 204
    (by norm_num) (by norm_num) (by norm_num) (by norm_num) (by norm_num) (by norm_num)
    (by norm_num) (by norm_num) h
  obtain ⟨hmajor, hmajor', -⟩ := decimal_bounds v
  have hmajor : v.major = 3 := by
    have hlt : (v.major : ℚ) < 4 := by linarith
    have hgt : (2 : ℚ) < v.major := by linarith
    have hlt : v.major < 4 := by exact_mod_cast hlt
    have hgt : 2 < v.major := by exact_mod_cast hgt
    omega
  have hthree : (v.major : ℚ) = 3 := by exact_mod_cast hmajor
  obtain ⟨hlow, hhigh⟩ := minor_of_decimal (v := v) (a := 1 / 10) (b := 1 / 5)
    (by linarith) (by linarith)
  have hfive : (5 : ℚ) * v.minor < 10 ^ (digits v.minor).length := by linarith
  have hten : (10 : ℚ) ^ (digits v.minor).length < 10 * v.minor := by linarith
  exact ⟨hmajor, by exact_mod_cast hfive, by exact_mod_cast hten⟩

/-- A version with the major number 3 that is `4.0` or `4.1` as a float. -/
theorem minor_of_four {w : Version} (hmajor : w.major = 3)
    (h : Binary64.round w.decimal = Binary64.round 4 ∨
      Binary64.round w.decimal = Binary64.round (41 / 10)) :
    10 ^ (digits w.minor).length < 2 * w.minor := by
  have hthree : (w.major : ℚ) = 3 := by exact_mod_cast hmajor
  have hdecimal := (decimal_bounds w).2.1
  have hlow : (7 / 2 : ℚ) < w.decimal := by
    rcases h with h | h
    · exact (decimal_of_round (v := w) (b := 41 / 10) 224 256 256 262 (by norm_num) (by norm_num)
        (by norm_num) (by norm_num) (by norm_num) (by norm_num) (by norm_num) (by norm_num) h).1
    · have hfour := (decimal_of_round (v := w) (a := 4) (b := 5) 256 262 288 320 (by norm_num)
        (by norm_num) (by norm_num) (by norm_num) (by norm_num) (by norm_num) (by norm_num)
        (by norm_num) h).1
      linarith
  have hminor := (minor_of_decimal (v := w) (a := 1 / 2) (b := 1) (by linarith) hdecimal).1
  have htwo : (10 : ℚ) ^ (digits w.minor).length < 2 * w.minor := by linarith
  exact_mod_cast htwo

/-- The two are not one minor version apart as well. -/
theorem Coincide.apart {v w : Version} (h : Coincide v w) (hle : v.le w) :
    ¬(w.major = v.major ∧ w.minor ≤ v.minor + 1) := by
  rintro ⟨hmajor, hminor⟩
  obtain ⟨hthree, hfive, hten⟩ := minor_of_313 h.1
  have htwo := minor_of_four (hmajor.trans hthree) h.2
  have horder : v.minor ≤ w.minor := by
    rw [Version.le, hmajor] at hle
    omega
  have hpow := Nat.pow_le_pow_right (n := 10) (by decide) (length_digits_mono horder)
  omega

theorem decimal_step (v w : Version)
    (h : (v.major = 3 ∧ v.minor = 13) ∧ w.major = 4 ∧ (w.minor = 0 ∨ w.minor = 1)) :
    Coincide v w := by
  obtain ⟨⟨hmajor, hminor⟩, hmajor', hminor'⟩ := h
  have hlength : (digits 13).length = 2 ∧ (digits 0).length = 1 ∧ (digits 1).length = 1 := by decide
  constructor
  · rw [Version.decimal, hmajor, hminor, hlength.1]
    norm_num
  · rcases hminor' with hminor' | hminor'
    · rw [Version.decimal, hmajor', hminor', hlength.2.1]
      norm_num
    · rw [Version.decimal, hmajor', hminor', hlength.2.2]
      norm_num

/-! ## The check -/

/-- The next minor version does not have much greater first digits. -/
theorem leadingTwo_next {m n : ℕ} (hle : m ≤ n) (hnext : n ≤ m + 1) :
    leadingTwo n ≤ leadingTwo m + 1 := by
  have hpow : 10 ^ ((digits m).length - 2) ≤ 10 ^ ((digits n).length - 2) :=
    Nat.pow_le_pow_right (by decide) (Nat.sub_le_sub_right (length_digits_mono hle) 2)
  have hpos : 0 < 10 ^ ((digits m).length - 2) := Nat.pow_pos (by decide)
  calc leadingTwo n
    _ ≤ n / 10 ^ ((digits m).length - 2) := Nat.div_le_div_left hpow hpos
    _ ≤ (m + 10 ^ ((digits m).length - 2)) / 10 ^ ((digits m).length - 2) :=
      Nat.div_le_div_right (by omega)
    _ = leadingTwo m + 1 := Nat.add_div_right m hpos

theorem passes_text (v w : Version) (newlines : ℕ) :
    passes v.text (w.text ++ List.replicate newlines '\n') ↔
      v.le w ∧ ((w.major = v.major ∧ (10 ≤ v.major ∨ leadingTwo w.minor ≤ leadingTwo v.minor + 1)) ∨
        Coincide v w) := by
  rw [passes, oneBehind_text, notDowngraded_text, and_comm]

theorem supported_passes {v w : Version} (hle : v.le w) (h : Supported v w) :
    (w.major = v.major ∧ (10 ≤ v.major ∨ leadingTwo w.minor ≤ leadingTwo v.minor + 1)) ∨
      Coincide v w := by
  rcases h with ⟨hmajor, hminor⟩ | hstep
  · have horder : v.minor ≤ w.minor := by
      rw [Version.le, hmajor] at hle
      omega
    exact .inl ⟨hmajor, .inr (leadingTwo_next horder hminor)⟩
  · exact .inr (decimal_step v w hstep)

/-- What passes without being supported. -/
theorem slips {v w : Version} :
    (v.le w ∧ ((w.major = v.major ∧
        (10 ≤ v.major ∨ leadingTwo w.minor ≤ leadingTwo v.minor + 1)) ∨ Coincide v w)) ∧
      ¬Supported v w ↔ MinorSlip v w ∨ FloatSlip v w := by
  constructor
  · rintro ⟨⟨hle, hminor | hfloat⟩, hout⟩
    · refine .inl ⟨hminor.1, ?_, hminor.2⟩
      by_contra hnext
      exact hout (.inl ⟨hminor.1, not_lt.mp hnext⟩)
    · exact .inr ⟨hle, hfloat.1, hfloat.2, fun hstep => hout (.inr hstep)⟩
  · rintro (⟨hmajor, hminor, hdeceives⟩ | ⟨hle, hcurrent, hnew, hother⟩)
    · refine ⟨⟨.inr ⟨hmajor.symm, .inl (by omega)⟩, .inl ⟨hmajor, hdeceives⟩⟩, ?_⟩
      rintro (⟨-, hnext⟩ | ⟨⟨hthree, -⟩, hfour, -⟩)
      · omega
      · omega
    · have hfloat : Coincide v w := ⟨hcurrent, hnew⟩
      exact ⟨⟨hle, .inr hfloat⟩, fun h => h.elim (hfloat.apart hle) hother⟩

/-- The check admits just the supported steps, unless the first digits of the minor versions or the
floats deceive. -/
theorem admits_iff (v w : Version) (newlines : ℕ) :
    Correct v w newlines ↔ ¬(MinorSlip v w ∨ FloatSlip v w) := by
  rw [Correct, passes_text, ← slips]
  constructor
  · rintro h ⟨hpasses, hout⟩
    exact hout (h.mp hpasses).2
  · intro h
    refine ⟨fun hpasses => ⟨hpasses.1, ?_⟩, fun hspec => ⟨hspec.1, supported_passes hspec.1 hspec.2⟩⟩
    by_contra hout
    exact h ⟨hpasses, hout⟩

/-- From 3.13 to 4.10, which is 4.1 as a float. -/
theorem four_ten_admitted : ¬Correct ⟨3, 13, 7⟩ ⟨4, 10, 0⟩ 1 := by
  intro h
  have hle : Version.le ⟨3, 13, 7⟩ ⟨4, 10, 0⟩ := .inl (by decide)
  have hfloat : Coincide ⟨3, 13, 7⟩ ⟨4, 10, 0⟩ := by
    have hlength : (digits 13).length = 2 ∧ (digits 10).length = 2 := by decide
    refine ⟨?_, .inr ?_⟩
    · rw [Version.decimal, hlength.1]
      norm_num
    · rw [Version.decimal, hlength.2]
      norm_num
  rcases (h.mp ((passes_text ..).mpr ⟨hle, .inr hfloat⟩)).2 with ⟨hmajor, -⟩ | ⟨-, -, hminor⟩
  · exact absurd hmajor (by decide)
  · exact absurd hminor (by decide)

end RabbitmqVersion
end KollaPowerOps
