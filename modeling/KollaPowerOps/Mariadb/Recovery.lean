import Mathlib.Data.List.MinMax
import KollaPowerOps.Lib.Linear
import KollaPowerOps.Lib.PyNumber

/-!
# Mariadb.Recovery

The choice of the host that bootstraps a cluster after an outage, in `recover_cluster.yml`.

Every host reads its position from the log, compares it with those of all hosts, and writes its name
to one file on the controller if it found none that is ahead; the last writer is chosen. A position
in the form `seqno,gtid` compares with nothing, so its host always writes: the host chosen is a most
advanced one exactly if such hosts can do no harm (`most_advanced_iff`).
-/

namespace KollaPowerOps
namespace Mariadb

open Linear PyNumber

/-! ## Positions as texts -/

def awkSpace (c : Char) : Bool := c == ' ' || c == '\t'

/-- `$NF` -/
def lastField (line : List Char) : List Char :=
  ((line.rdropWhile awkSpace).reverse.takeWhile fun c => !awkSpace c).reverse

/-- What `/Recovered position/{seqno=$NF} END{split(seqno, a, ":"); print a[2]}` prints for the
lines of a log. -/
def recoveredSeqno (log : List (List Char)) : List Char :=
  let found := log.filter fun line => (PyText.after? "Recovered position".toList line).isSome
  let seqno := (found.getLast?.map lastField).getD []
  ((seqno.splitOn ':')[1]?).getD []

/-- `[0-9]+` -/
def isDigits (ds : List Char) : Bool := ds != [] && ds.all Char.isDigit

/-- `^-?[0-9]+$` -/
def isInteger : List Char → Bool
  | '-' :: ds => isDigits ds
  | ds => isDigits ds

/-- The number that the shell takes such a text for. -/
def shellInt : List Char → Int
  | '-' :: ds => -(digitsValue ds : Int)
  | ds => digitsValue ds

/-- What the comparison of its own position with another prints. -/
def compareSeqno (own other : List Char) : List Char :=
  if own != [] && other != [] && isInteger own && isInteger other &&
      shellInt own < shellInt other then other
  else []

/-- A position that MariaDB prints: a number of 64 bits and, with `wsrep_gtid`, a list of GTIDs. -/
structure Position where
  seqno : Int
  gtid : Option (List Char) := none
  seqno_lower : -2 ^ 63 ≤ seqno := by decide
  seqno_upper : seqno < 2 ^ 63 := by decide
  gtid_chars : ∀ g ∈ gtid, ∀ c ∈ g, c.isDigit = true ∨ c = '-' ∨ c = ',' := by simp

def Position.text (p : Position) : List Char :=
  decimal p.seqno ++ (p.gtid.map fun g => ',' :: g).getD []

theorem isInteger_decimal (i : Int) : isInteger (decimal i) = true := by
  have hdigits : ∀ n, isDigits (Nat.toDigits 10 n) = true := by
    intro n
    obtain ⟨hne, hall⟩ := isDigits_toDigits n
    simpa [isDigits, hne] using hall
  cases i with
  | ofNat n =>
    rw [decimal, isInteger]
    · exact hdigits n
    · intro ds hds
      have hminus := (isDigits_toDigits n).2 '-' (by rw [hds]; exact List.mem_cons_self)
      cases hminus
  | negSucc n => exact hdigits (n + 1)

theorem shellInt_decimal (i : Int) : shellInt (decimal i) = i := by
  cases i with
  | ofNat n =>
    rw [decimal, shellInt]
    · rw [digitsValue_toDigits]
      rfl
    · intro ds hds
      have hminus := (isDigits_toDigits n).2 '-' (by rw [hds]; exact List.mem_cons_self)
      cases hminus
  | negSucc n =>
    rw [decimal, shellInt, digitsValue_toDigits]
    omega

theorem not_isInteger_of_comma {s : List Char} (h : ',' ∈ s) : isInteger s = false := by
  have hdigits : ∀ ds : List Char, ',' ∈ ds → isDigits ds = false := by
    intro ds hmem
    rw [isDigits, Bool.and_eq_false_iff]
    refine .inr ?_
    rw [List.all_eq_false]
    exact ⟨',', hmem, by decide⟩
  unfold isInteger
  split
  · refine hdigits _ ?_
    rcases List.mem_cons.mp h with hminus | hmem
    · cases hminus
    · exact hmem
  · exact hdigits _ h

namespace Position

variable {p q : Position}

theorem text_ne_nil (p : Position) : p.text ≠ [] := by
  rw [text, Ne, List.append_eq_nil_iff]
  exact fun h => decimal_ne_nil _ h.1

/-- The texts of positions compare as their numbers do, if neither has GTIDs. -/
theorem compare_text (p q : Position) : compareSeqno p.text q.text = [] ↔
    (p.gtid = none → q.gtid = none → q.seqno ≤ p.seqno) := by
  have hplain : ∀ p : Position, p.gtid = none → p.text = decimal p.seqno := by
    intro p hp
    rw [text, hp]
    exact List.append_nil _
  have hgtid : ∀ p : Position, p.gtid ≠ none → isInteger p.text = false := by
    intro p hp
    obtain ⟨g, hg⟩ := Option.ne_none_iff_exists'.mp hp
    refine not_isInteger_of_comma ?_
    rw [text, hg]
    simp
  have hne : (p.text != []) = true := by simp [text_ne_nil]
  have hne' : (q.text != []) = true := by simp [text_ne_nil]
  unfold compareSeqno
  by_cases hp : p.gtid = none
  · by_cases hq : q.gtid = none
    · rw [hplain p hp, hplain q hq, isInteger_decimal, isInteger_decimal, shellInt_decimal,
        shellInt_decimal]
      simp [decimal_ne_nil, hp, hq]
    · simp [hgtid q hq, hq]
  · simp [hgtid p hp, hp]

end Position

/-! ## The tasks -/

/-- The hosts of a shard, their logs, and the positions in these. A log without a position leaves
nothing to register. -/
structure Recovery (H : Type) where
  hosts : List H
  hosts_nodup : hosts.Nodup
  log : H → List (List Char)
  position : H → Option Position
  log_position : ∀ h, recoveredSeqno (log h) = ((position h).map Position.text).getD []

structure RecoveryState (H : Type) where
  seqno : H → Option (List Char) := fun _ => none
  /-- `seqno_compare.results | map(attribute='stdout') | join('')` -/
  seqnoCompare : H → Option (List Char) := fun _ => none
  /-- what `mariadb_recover_tmp_file_path` has in it -/
  tmpFile : Option H := none
  mariadbRecoverInventoryName : H → Option H := fun _ => none

section Tasks

variable {H : Type} [DecidableEq H] (e : Recovery H)

/-- `wsrep_recovery_seqno.stdout_lines[0]` -/
def Recovery.seqno (h : H) : Option (List Char) :=
  if recoveredSeqno (e.log h) = [] then none else some (recoveredSeqno (e.log h))

/-- The outputs of the comparisons of one host, where every host has registered its variable. -/
def Recovery.compared (seqno : H → Option (List Char)) (h : H) : Option (List Char) :=
  if (seqno h).isSome && e.hosts.all (fun item => (seqno item).isSome) then
    some (e.hosts.map fun item => compareSeqno ((seqno h).getD []) ((seqno item).getD [])).flatten
  else none

/-- `Registering MariaDB seqno variable`. -/
def registerSeqno : Task H (RecoveryState H) where
  run h s := { s with seqno := Function.update s.seqno h (e.seqno h) }
  succeeds _ h := (e.seqno h).isSome

/-- `Comparing seqno value on all mariadb hosts`. -/
def compareSeqnos : Task H (RecoveryState H) where
  run h s := { s with seqnoCompare := Function.update s.seqnoCompare h (e.compared s.seqno h) }
  succeeds s h := (e.compared s.seqno h).isSome

/-- `Writing hostname of host with the largest seqno to temp file`. -/
def writeHostname : Task H (RecoveryState H) where
  when s h := s.seqnoCompare h == some []
  run h s := { s with tmpFile := some h }

/-- `Registering mariadb_recover_inventory_name from temp file`. -/
def registerInventoryName : Task H (RecoveryState H) where
  run h s := { s with
    mariadbRecoverInventoryName := Function.update s.mariadbRecoverInventoryName h s.tmpFile }
  succeeds s _ := s.tmpFile.isSome

/-- The block of these tasks. -/
def chooseHost : Block H (RecoveryState H) where
  when s h := s.mariadbRecoverInventoryName h == none
  tasks := [registerSeqno e, compareSeqnos e, writeHostname, registerInventoryName]

theorem registerSeqno_seqno (h : H) (s : RecoveryState H) :
    ((registerSeqno e).run h s).seqno = Function.update s.seqno h (e.seqno h) := rfl

theorem compareSeqnos_compared (h : H) (s : RecoveryState H) :
    ((compareSeqnos e).run h s).seqnoCompare =
      Function.update s.seqnoCompare h (e.compared s.seqno h) := rfl

theorem registerInventoryName_name (h : H) (s : RecoveryState H) :
    (registerInventoryName.run h s).mariadbRecoverInventoryName =
      Function.update s.mariadbRecoverInventoryName h s.tmpFile := rfl

end Tasks

/-! ## Who can be chosen -/

section Choice

variable {H : Type} [DecidableEq H] {e : Recovery H}

/-- The host of the shard has recovered this position. -/
def Recovery.Recovered (e : Recovery H) (h : H) (p : Position) : Prop :=
  h ∈ e.hosts ∧ e.position h = some p

/-- Every host has recovered a position. -/
def Recovery.Complete (e : Recovery H) : Prop := ∀ h ∈ e.hosts, ∃ p, e.position h = some p

/-- No host is ahead of this one, as far as their texts compare. -/
def Recovery.Candidate (e : Recovery H) (b : H) (p : Position) : Prop :=
  e.Recovered b p ∧ ∀ x q, e.Recovered x q → p.gtid = none → q.gtid = none → q.seqno ≤ p.seqno

/-- No host is ahead of this one. -/
def Recovery.MostAdvanced (e : Recovery H) (b : H) : Prop :=
  ∃ p, e.Recovered b p ∧ ∀ x ∈ e.hosts, ∃ q, e.position x = some q ∧ q.seqno ≤ p.seqno

/-- A host that is chosen to bootstrap is most advanced. -/
def Recovery.ChoosesWell (e : Recovery H) (s : RecoveryState H) : Prop :=
  ∀ h b, s.mariadbRecoverInventoryName h = some b → e.MostAdvanced b

/-- A host without a position stops the recovery; otherwise a position with GTIDs is one of the
greatest, and if there are positions without, one of these is as great. -/
def Recovery.GtidsHarmless (e : Recovery H) : Prop :=
  (∃ h ∈ e.hosts, e.position h = none) ∨ ∀ g p, e.Recovered g p → p.gtid ≠ none →
    (∀ x q, e.Recovered x q → q.seqno ≤ p.seqno) ∧
    ((∃ x q, e.Recovered x q ∧ q.gtid = none) →
      ∃ x q, e.Recovered x q ∧ q.gtid = none ∧ p.seqno ≤ q.seqno)

omit [DecidableEq H] in
theorem seqno_eq (e : Recovery H) (h : H) : e.seqno h = (e.position h).map Position.text := by
  rw [Recovery.seqno, e.log_position]
  cases e.position h with
  | none => rfl
  | some p => exact if_neg p.text_ne_nil

omit [DecidableEq H] in
theorem complete_iff : e.Complete ↔ ∀ h ∈ e.hosts, (e.seqno h).isSome = true := by
  refine forall₂_congr fun h _ => ?_
  rw [seqno_eq, Option.isSome_map, Option.isSome_iff_exists]

omit [DecidableEq H] in
/-- What has been compared, all hosts had registered. -/
theorem compared_some {seqno : H → Option (List Char)} {h : H} {printed : List Char}
    (hseqno : ∀ x, seqno x = none ∨ seqno x = e.seqno x)
    (h' : e.compared seqno h = some printed) :
    e.Complete ∧ ∀ x ∈ e.hosts, seqno x = e.seqno x := by
  unfold Recovery.compared at h'
  split at h'
  · rename_i hall
    rw [Bool.and_eq_true, List.all_eq_true] at hall
    have hsame : ∀ x ∈ e.hosts, seqno x = e.seqno x := by
      intro x hx
      have hsome := hall.2 x hx
      rcases hseqno x with hnone | hsame
      · rw [hnone] at hsome
        cases hsome
      · exact hsame
    refine ⟨complete_iff.mpr fun x hx => ?_, hsame⟩
    rw [← hsame x hx]
    exact hall.2 x hx
  · cases h'

omit [DecidableEq H] in
theorem compared_eq {seqno : H → Option (List Char)} (hc : e.Complete)
    (hseqno : ∀ x ∈ e.hosts, seqno x = e.seqno x) {h : H} (hh : h ∈ e.hosts) :
    e.compared seqno h = some
      (e.hosts.map fun x => compareSeqno ((e.seqno h).getD []) ((e.seqno x).getD [])).flatten := by
  have hsome := complete_iff.mp hc
  have hall : ((seqno h).isSome && e.hosts.all fun x => (seqno x).isSome) = true := by
    rw [Bool.and_eq_true, List.all_eq_true, hseqno h hh]
    exact ⟨hsome h hh, fun x hx => by rw [hseqno x hx]; exact hsome x hx⟩
  rw [Recovery.compared, if_pos hall, hseqno h hh]
  congr 2
  exact List.map_congr_left fun x hx => by rw [hseqno x hx]

omit [DecidableEq H] in
/-- A host whose comparisons have printed nothing is a candidate, and no other. -/
theorem compared_nil_iff {seqno : H → Option (List Char)} (hc : e.Complete)
    (hseqno : ∀ x ∈ e.hosts, seqno x = e.seqno x) {h : H} {p : Position}
    (hp : e.Recovered h p) : e.compared seqno h = some [] ↔ e.Candidate h p := by
  rw [compared_eq hc hseqno hp.1, Option.some.injEq, List.flatten_eq_nil_iff, List.forall_mem_map]
  have hcompare : ∀ x q, e.Recovered x q →
      (compareSeqno ((e.seqno h).getD []) ((e.seqno x).getD []) = [] ↔
        (p.gtid = none → q.gtid = none → q.seqno ≤ p.seqno)) := by
    intro x q hq
    rw [seqno_eq, seqno_eq, hp.2, hq.2]
    exact Position.compare_text p q
  constructor
  · exact fun hall => ⟨hp, fun x q hq => (hcompare x q hq).mp (hall x hq.1)⟩
  · intro hcand x hx
    obtain ⟨q, hq⟩ := hc x hx
    exact (hcompare x q ⟨hx, hq⟩).mpr (hcand.2 x q ⟨hx, hq⟩)

omit [DecidableEq H] in
/-- Where GTIDs are harmless, a candidate is most advanced. -/
theorem Recovery.Candidate.mostAdvanced {b : H} {p : Position} (hb : e.Candidate b p)
    (hc : e.Complete) (hharmless : e.GtidsHarmless) : e.MostAdvanced b := by
  have hgtids : ∀ g p, e.Recovered g p → p.gtid ≠ none →
      (∀ x q, e.Recovered x q → q.seqno ≤ p.seqno) ∧
      ((∃ x q, e.Recovered x q ∧ q.gtid = none) →
        ∃ x q, e.Recovered x q ∧ q.gtid = none ∧ p.seqno ≤ q.seqno) := by
    refine hharmless.resolve_left ?_
    rintro ⟨h, hh, hnone⟩
    obtain ⟨q, hq⟩ := hc h hh
    rw [hnone] at hq
    cases hq
  refine ⟨p, hb.1, fun x hx => ?_⟩
  obtain ⟨q, hq⟩ := hc x hx
  refine ⟨q, hq, ?_⟩
  by_cases hplain : p.gtid = none
  · by_cases hqplain : q.gtid = none
    · exact hb.2 x q ⟨hx, hq⟩ hplain hqplain
    · -- some position without GTIDs is as great, and it does compare
      obtain ⟨y, r, hr, hrplain, hle⟩ := (hgtids x q ⟨hx, hq⟩ hqplain).2 ⟨b, p, hb.1, hplain⟩
      exact Int.le_trans hle (hb.2 y r hr hplain hrplain)
  · exact (hgtids b p hb.1 hplain).1 x q ⟨hx, hq⟩

omit [DecidableEq H] in
/-- Of the positions without GTIDs one is the greatest. -/
theorem exists_plain_candidate (hplain : ∃ x q, e.Recovered x q ∧ q.gtid = none) :
    ∃ b p, e.Candidate b p ∧ p.gtid = none := by
  let plain : List (H × Position) := e.hosts.filterMap fun h =>
    ((e.position h).filter fun p => p.gtid == none).map (h, ·)
  have hmem : ∀ x q, (x, q) ∈ plain ↔ e.Recovered x q ∧ q.gtid = none := by
    intro x q
    simp [plain, List.mem_filterMap, Option.map_eq_some_iff, Option.filter_eq_some_iff,
      Recovery.Recovered, and_assoc]
  obtain ⟨x, q, hq, hqplain⟩ := hplain
  cases hmax : plain.argmax fun xq => xq.2.seqno with
  | none =>
    have hnil := (hmem x q).mpr ⟨hq, hqplain⟩
    rw [List.argmax_eq_none.mp hmax] at hnil
    cases hnil
  | some bp =>
    obtain ⟨hb, hp⟩ := (hmem bp.1 bp.2).mp (List.argmax_mem hmax)
    refine ⟨bp.1, bp.2, ⟨hb, fun x q hq _ hqp => ?_⟩, hp⟩
    exact List.le_of_mem_argmax (a := (x, q)) ((hmem x q).mpr ⟨hq, hqp⟩) hmax

end Choice

/-! ## Every run of the block -/

section Runs

variable {H : Type} [DecidableEq H] {e : Recovery H}

/-- What the tasks know at every moment. -/
structure Known (e : Recovery H) (s : RecoveryState H) : Prop where
  seqno : ∀ h, s.seqno h = none ∨ s.seqno h = e.seqno h
  compared : ∀ h ∈ e.hosts, s.seqnoCompare h = some [] → e.Complete ∧ ∃ p, e.Candidate h p
  file : ∀ b, s.tmpFile = some b → e.Complete ∧ ∃ p, e.Candidate b p
  name : ∀ h b, s.mariadbRecoverInventoryName h = some b → e.Complete ∧ ∃ p, e.Candidate b p

/-- Each of the tasks keeps this. -/
theorem known_run {t : Task H (RecoveryState H)} (ht : t ∈ (chooseHost e).tasks)
    {s₀ s : RecoveryState H} {h : H} (hh : h ∈ e.hosts) (hs₀ : Known e s₀)
    (hwhen : t.when s₀ h = true) (hs : Known e s) : Known e (t.run h s) := by
  simp only [chooseHost, List.mem_cons, List.not_mem_nil, or_false] at ht
  rcases ht with rfl | rfl | rfl | rfl
  · refine ⟨fun x => ?_, hs.compared, hs.file, hs.name⟩
    by_cases hx : x = h
    · rw [hx]
      exact .inr (Function.update_self _ _ _)
    · rw [registerSeqno_seqno, Function.update_of_ne hx]
      exact hs.seqno x
  · refine ⟨hs.seqno, fun x hxe hx => ?_, hs.file, hs.name⟩
    by_cases hxh : x = h
    · rw [hxh, compareSeqnos_compared, Function.update_self] at hx
      obtain ⟨hc, hsame⟩ := compared_some hs.seqno hx
      obtain ⟨p, hp⟩ := hc h hh
      rw [hxh]
      exact ⟨hc, p, (compared_nil_iff hc hsame ⟨hh, hp⟩).mp hx⟩
    · rw [compareSeqnos_compared, Function.update_of_ne hxh] at hx
      exact hs.compared x hxe hx
  · refine ⟨hs.seqno, hs.compared, fun b hb => ?_, hs.name⟩
    cases hb
    exact hs₀.compared h hh (by simpa [writeHostname] using hwhen)
  · refine ⟨hs.seqno, hs.compared, hs.file, fun x b hb => ?_⟩
    by_cases hx : x = h
    · rw [hx, registerInventoryName_name, Function.update_self] at hb
      exact hs.file b hb
    · rw [registerInventoryName_name, Function.update_of_ne hx] at hb
      exact hs.name x b hb

/-- In no run a host is chosen that is behind another. -/
def NeverBehind (e : Recovery H) : Prop :=
  Always (fun p => e.ChoosesWell p.state) [] [chooseHost e] ⟨e.hosts, {}⟩

theorem neverBehind_of_harmless (h : e.GtidsHarmless) : NeverBehind e := by
  refine always_among (P := Known e) (fun _ hh => hh) e.hosts_nodup (fun s hs x b hb => ?_) ?_ ?_
  · obtain ⟨hc, p, hp⟩ := hs.name x b hb
    exact hp.mostAdvanced hc h
  · intro b hb t ht s₀ h s hh hs₀ hwhen hs
    cases List.mem_singleton.mp hb
    exact known_run ht hh hs₀ hwhen hs
  · exact ⟨fun _ => .inl rfl, fun _ _ hx => (by cases hx), fun _ hb => (by cases hb),
      fun _ _ hb => (by cases hb)⟩

/-- What a task has registered on some hosts. -/
def noted {α : Type} (done : List H) (f : H → Option α) (h : H) : Option α :=
  if h ∈ done then f h else none

theorem noted_snoc {α : Type} (done : List H) (f : H → Option α) (h : H) :
    Function.update (noted done f) h (f h) = noted (done ++ [h]) f := by
  funext x
  by_cases hx : x = h
  · rw [hx, Function.update_self, noted, if_pos (by simp)]
  · rw [Function.update_of_ne hx]
    simp [noted, hx]

/-- Every candidate is chosen in some run: the one in which it is the last to write. -/
theorem mostAdvanced_of_candidate (hnever : NeverBehind e) (hc : e.Complete) {b : H}
    {p : Position} (hb : e.Candidate b p) : e.MostAdvanced b := by
  let registered := noted e.hosts e.seqno
  let compared := noted e.hosts (e.compared registered)
  have hregistered : ∀ x ∈ e.hosts, registered x = e.seqno x := fun x hx => if_pos hx
  have hselected : (chooseHost e).selected ⟨e.hosts, {}⟩ = e.hosts :=
    List.filter_eq_self.mpr fun _ _ => rfl
  have hblock := Always.enter hnever
  rw [Block.enter, hselected] at hblock
  have hall : ∀ (t : Task H (RecoveryState H)) (s : RecoveryState H),
      (∀ s h, t.when s h = true) → (t.on e.hosts).selected ⟨e.hosts, s⟩ = e.hosts := by
    intro t s hwhen
    exact List.filter_eq_self.mpr fun h hh => by simp [Task.on, hh, hwhen]
  -- every host registers its position and compares it with the others
  obtain ⟨s₁, rfl, hblock⟩ := hblock.run_in (J := fun done s =>
      s = { seqno := noted done e.seqno })
    (List.Perm.of_eq (hall (registerSeqno e) {} fun _ _ => rfl).symm)
    (fun _ h s hh _ _ => complete_iff.mp hc h (Task.mem_selected_on.mp hh).1) e.hosts_nodup
    (by rfl) (fun done h s _ _ hs => by rw [hs, ← noted_snoc]; rfl)
  obtain ⟨s₂, rfl, hblock⟩ := hblock.run_in (J := fun done s =>
      s = { seqno := registered, seqnoCompare := noted done (e.compared registered) })
    (List.Perm.of_eq (hall (compareSeqnos e) _ fun _ _ => rfl).symm)
    (fun _ h s hh _ hs => by
      rw [hs]
      exact Option.isSome_iff_exists.mpr ⟨_, compared_eq hc hregistered
        (Task.mem_selected_on.mp hh).1⟩)
    e.hosts_nodup (by rfl) (fun done h s _ _ hs => by rw [hs, ← noted_snoc]; rfl)
  -- the candidate writes last
  have hcompared : compared b = some [] :=
    (if_pos hb.1.1).trans ((compared_nil_iff hc hregistered hb.1).mpr hb)
  let writing : Play H (RecoveryState H) :=
    ⟨e.hosts, { seqno := registered, seqnoCompare := compared }⟩
  have hwrites : b ∈ (writeHostname.on e.hosts).selected writing :=
    Task.mem_selected_on.mpr ⟨hb.1.1, hb.1.1, by simp [writeHostname, writing, hcompared]⟩
  have horder : (((writeHostname.on e.hosts).selected writing).erase b ++ [b]).Perm
      ((writeHostname.on e.hosts).selected writing) :=
    (List.perm_append_singleton _ _).trans (List.perm_cons_erase hwrites).symm
  obtain ⟨s₃, rfl, hblock⟩ := hblock.run_in (J := fun done s =>
      s = { seqno := registered, seqnoCompare := compared, tmpFile := done.getLast? }) horder
    (fun _ _ _ _ _ _ => rfl) e.hosts_nodup (by rfl)
    (fun done h s _ _ hs => by rw [hs, List.getLast?_concat]; rfl)
  -- and every host reads what it has written
  obtain ⟨s₄, ⟨hfile, hname⟩, hblock⟩ := hblock.run_in (J := fun done s =>
      s.tmpFile = some b ∧ s.mariadbRecoverInventoryName = noted done fun _ => some b)
    (List.Perm.of_eq (hall registerInventoryName _ fun _ _ => rfl).symm)
    (fun _ h s _ _ hs => by
      have hfile := hs.1
      simp [Task.on, registerInventoryName, hfile])
    e.hosts_nodup ⟨List.getLast?_concat, rfl⟩
    (fun done h s _ _ hs => by
      refine ⟨hs.1, ?_⟩
      rw [← noted_snoc, ← hs.2, ← hs.1]
      rfl)
  refine hblock.now b b ?_
  rw [hname]
  exact if_pos hb.1.1

/-- **Which recoveries choose well.** In no run, whatever the order in which the hosts write, a host
is chosen that is behind another, exactly if the positions with GTIDs are harmless. -/
theorem most_advanced_iff (e : Recovery H) : NeverBehind e ↔ e.GtidsHarmless := by
  refine ⟨fun hnever => ?_, neverBehind_of_harmless⟩
  by_cases hc : e.Complete
  swap
  · rw [Recovery.Complete, not_forall] at hc
    obtain ⟨h, hc⟩ := hc
    rw [Classical.not_imp, ← Option.ne_none_iff_exists', not_not] at hc
    exact .inl ⟨h, hc⟩
  refine .inr fun g p hg hgtid => ⟨fun x q hq => ?_, fun hplain => ?_⟩
  · -- a host whose position has GTIDs is always a candidate
    have hcand : e.Candidate g p := ⟨hg, fun _ _ _ hp => absurd hp hgtid⟩
    obtain ⟨p', hp', hle⟩ := mostAdvanced_of_candidate hnever hc hcand
    obtain ⟨q', hq', hle⟩ := hle x hq.1
    cases hp'.2.symm.trans hg.2
    cases hq'.symm.trans hq.2
    exact hle
  · obtain ⟨b, r, hb, hr⟩ := exists_plain_candidate hplain
    obtain ⟨r', hr', hle⟩ := mostAdvanced_of_candidate hnever hc hb
    obtain ⟨q, hq, hle⟩ := hle g hg.1
    cases hr'.2.symm.trans hb.1.2
    cases hq.symm.trans hg.2
    exact ⟨b, r, hb.1, hr, hle⟩

end Runs

/-- Two hosts at the positions 31 and 20, both printed with GTIDs. -/
def twoGtids : Recovery Bool where
  hosts := [true, false]
  hosts_nodup := by decide
  log h := [(if h then "WSREP: Recovered position: 6a1c:31,0-1-31"
    else "WSREP: Recovered position: 6a1c:20,0-1-20").toList]
  position h := some (if h then { seqno := 31, gtid := some "0-1-31".toList, gtid_chars := by simp }
    else { seqno := 20, gtid := some "0-1-20".toList, gtid_chars := by simp })
  log_position := by decide

/-- The host at 20 may write last. -/
theorem behind_is_chosen :
    ¬ ∀ (H : Type) [DecidableEq H] (e : Recovery H), NeverBehind e := by
  intro h
  rcases (most_advanced_iff twoGtids).mp (h Bool twoGtids) with ⟨x, _, hnone⟩ | hgtids
  · cases hnone
  · have hle := (hgtids false _ ⟨by decide, rfl⟩ (by simp)).1 true _ ⟨by decide, rfl⟩
    exact absurd hle (by decide)

end Mariadb
end KollaPowerOps
