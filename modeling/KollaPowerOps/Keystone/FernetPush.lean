import Mathlib.Logic.Function.Basic
import KollaPowerOps.Lib.KeyRing

/-!
# Keystone.FernetPush

`fernet-rotate.sh` and `fernet-push.sh` on the hosts of the group `keystone`, with hosts going
down and coming back at any time between two runs.

Both scripts run under `errexit`: the first copy that fails ends the push, and the hosts behind it
in the group are not reached.
-/

namespace KollaPowerOps
namespace Keystone

open KeyRing

variable {Host Key : Type} [DecidableEq Host]

/-- The settings of `keystone.conf.j2`, in seconds. -/
structure FernetSettings where
  tokenExpiry : Nat := 86400
  allowExpiredWindow : Nat := 172800
  keyRotationInterval : Nat := 259200

def FernetSettings.maxActiveKeys (c : FernetSettings) : Nat :=
  (c.tokenExpiry + c.allowExpiredWindow + c.keyRotationInterval - 1) / c.keyRotationInterval + 2

/-- One `rsync --delete` after the other; one to a host that is down fails. -/
def pushTo (up : Host → Bool) (self : Host) :
    List Host → (Host → KeyRing Key) → Host → KeyRing Key
  | [], repo => repo
  | host :: hosts, repo =>
    if self ≠ host then
      if up host then pushTo up self hosts (Function.update repo host (repo self)) else repo
    else pushTo up self hosts repo

def fernetPush (keystone : List Host) (up : Host → Bool) (self : Host)
    (repo : Host → KeyRing Key) : Host → KeyRing Key :=
  if keystone.length > 1 then pushTo up self keystone repo else repo

/-- `keystone-manage fernet_rotate`, then the push. -/
def fernetRotate (c : FernetSettings) (keystone : List Host) (up : Host → Bool) (self : Host)
    (new : Key) (repo : Host → KeyRing Key) : Host → KeyRing Key :=
  fernetPush keystone up self
    (Function.update repo self ((repo self).rotate c.maxActiveKeys new))

/-! ## Runs -/

/-- `steady` and `missed` record the past of a host; the scripts do not read them. -/
structure Fleet (Host Key : Type) where
  repo : Host → KeyRing Key
  up : Host → Bool
  /-- has been up throughout -/
  steady : Host → Bool
  /-- the runs since the host last took part in one -/
  missed : Host → Nat

def Fleet.start (r : KeyRing Key) : Fleet Host Key :=
  ⟨fun _ => r, fun _ => true, fun _ => true, fun _ => 0⟩

inductive Event (Host Key : Type) where
  | goesDown (host : Host)
  | comesUp (host : Host)
  | rotates (host : Host) (new : Key)
  deriving Repr, DecidableEq

/-- The hosts a push from `self` reaches. -/
def reached (keystone : List Host) (up : Host → Bool) (self : Host) : List Host :=
  (keystone.filter fun host => self ≠ host).takeWhile up

/-- The runs every host has missed after one that `self` makes. -/
def missedAfter (keystone : List Host) (s : Fleet Host Key) (self : Host) (host : Host) : Nat :=
  if host = self ∨ host ∈ reached keystone s.up self then 0 else s.missed host + 1

variable (c : FernetSettings) (keystone : List Host)

def Fleet.next (s : Fleet Host Key) : Event Host Key → Fleet Host Key
  | .goesDown host =>
    { s with up := Function.update s.up host false,
             steady := Function.update s.steady host false }
  | .comesUp host => { s with up := Function.update s.up host true }
  | .rotates self new =>
    { s with repo := fernetRotate c keystone s.up self new s.repo,
             missed := missedAfter keystone s self }

/-- A host that is down does not rotate. -/
def Fleet.Enabled (s : Fleet Host Key) : Event Host Key → Prop
  | .goesDown _ => True
  | .comesUp _ => True
  | .rotates self _ => self ∈ keystone ∧ s.up self = true

/-- The states of the runs whose every step meets `P`. -/
inductive Fleet.Reach (P : Fleet Host Key → Event Host Key → Prop) (r : KeyRing Key) :
    Fleet Host Key → Prop where
  | start : Fleet.Reach P r (Fleet.start r)
  | next {s : Fleet Host Key} {ev : Event Host Key} : Fleet.Reach P r s → s.Enabled keystone ev →
      P s ev → Fleet.Reach P r (s.next c keystone ev)

/-- Every event of a run is enabled and meets `P`. -/
def Fleet.Admits (P : Fleet Host Key → Event Host Key → Prop) (s : Fleet Host Key) :
    List (Event Host Key) → Prop
  | [] => True
  | ev :: evs => s.Enabled keystone ev ∧ P s ev ∧ (s.next c keystone ev).Admits P evs

theorem Fleet.Reach.run {P : Fleet Host Key → Event Host Key → Prop} {r : KeyRing Key}
    (evs : List (Event Host Key)) : ∀ {s : Fleet Host Key}, Fleet.Reach c keystone P r s →
      s.Admits c keystone P evs →
        Fleet.Reach c keystone P r (evs.foldl (Fleet.next c keystone) s) := by
  induction evs with
  | nil =>
    intro s hr _
    exact hr
  | cons ev evs ih =>
    intro s hr hadmits
    exact ih (hr.next hadmits.1 hadmits.2.1) hadmits.2.2

/-- A token of any reachable host can be validated on every other one that has been up throughout. -/
def Fleet.TokensValid (s : Fleet Host Key) : Prop :=
  ∀ a ∈ keystone, ∀ b ∈ keystone, a ≠ b → s.up a = true → s.up b = true → s.steady b = true →
    (s.repo b).Reads (s.repo a)

/-- The run is made on the newest keys, it leaves no host that was up throughout out for the second
time in a row, and no host that is up has missed so many runs that its keys are dropped. -/
def Undisturbed (s : Fleet Host Key) : Event Host Key → Prop
  | .goesDown _ => True
  | .comesUp host => s.missed host ≤ c.maxActiveKeys - 2
  | .rotates self _ =>
    s.missed self = 0 ∧
      ∀ host ∈ keystone, s.up host = true →
        missedAfter keystone s self host ≤ c.maxActiveKeys - 2 ∧
          (s.steady host = true → missedAfter keystone s self host ≤ 1)

/-! ## What a run of the scripts does -/

theorem pushTo_apply (up : Host → Bool) (self : Host) (hosts : List Host) :
    ∀ (repo : Host → KeyRing Key) (x : Host), pushTo up self hosts repo x =
      if x ∈ reached hosts up self then repo self else repo x := by
  induction hosts with
  | nil =>
    intro repo x
    simp [pushTo, reached]
  | cons host hosts ih =>
    intro repo x
    rw [pushTo]
    by_cases hself : self = host
    · rw [if_neg (by simpa using hself), ih]
      simp [reached, hself]
    · rw [if_pos hself]
      by_cases hup : up host = true
      · rw [if_pos hup, ih, Function.update_of_ne hself]
        have hreached : reached (host :: hosts) up self = host :: reached hosts up self := by
          simp [reached, hself, hup]
        by_cases hx : x = host
        · simp [hx, hreached]
        · simp [hx, hreached]
      · rw [if_neg hup]
        have hreached : reached (host :: hosts) up self = [] := by
          simp [reached, hself, hup]
        simp [hreached]

theorem fernetPush_apply {up : Host → Bool} {self : Host} (hself : self ∈ keystone)
    (repo : Host → KeyRing Key) (x : Host) :
    fernetPush keystone up self repo x =
      if x ∈ reached keystone up self then repo self else repo x := by
  rw [fernetPush]
  by_cases hmany : keystone.length > 1
  · rw [if_pos hmany, pushTo_apply]
  · have hsole : keystone = [self] := by
      obtain ⟨host, rfl⟩ : ∃ host, keystone = [host] :=
        List.length_eq_one_iff.mp (by have := List.length_pos_of_mem hself; omega)
      rw [List.mem_singleton.mp hself]
    rw [if_neg hmany]
    simp [hsole, reached]

/-- The hosts that take part in a run hold the keys of the host that makes it, rotated. -/
theorem fernetRotate_apply {up : Host → Bool} {self : Host} (hself : self ∈ keystone) (new : Key)
    (repo : Host → KeyRing Key) (x : Host) :
    fernetRotate c keystone up self new repo x =
      if x = self ∨ x ∈ reached keystone up self then (repo self).rotate c.maxActiveKeys new
      else repo x := by
  rw [fernetRotate, fernetPush_apply keystone hself, Function.update_self]
  by_cases hx : x ∈ reached keystone up self
  · simp [hx]
  · by_cases hxself : x = self
    · simp [hxself]
    · simp [hx, hxself]

/-! ## Undisturbed runs -/

/-- Every repository is a version of one line of rotations, as old as the runs its host missed. -/
structure InLine (r : KeyRing Key) (s : Fleet Host Key) (news : Nat → Key) (n : Nat) : Prop where
  missed_le : ∀ host, s.missed host ≤ n
  repo_eq : ∀ host, s.repo host = version c.maxActiveKeys news r (n - s.missed host)
  up_missed : ∀ host ∈ keystone, s.up host = true → s.missed host ≤ c.maxActiveKeys - 2
  steady_up : ∀ host, s.steady host = true → s.up host = true
  steady_missed : ∀ host ∈ keystone, s.steady host = true → s.missed host ≤ 1

variable {c keystone} {r : KeyRing Key} {s : Fleet Host Key} {news : Nat → Key} {n : Nat}

theorem InLine.goesDown (h : InLine c keystone r s news n) (host : Host) :
    InLine c keystone r (s.next c keystone (.goesDown host)) news n where
  missed_le := h.missed_le
  repo_eq := h.repo_eq
  up_missed x hx hup := by
    by_cases heq : x = host
    · simp [Fleet.next, heq] at hup
    · simp only [Fleet.next, Function.update_of_ne heq] at hup
      exact h.up_missed x hx hup
  steady_up x hsteady := by
    by_cases heq : x = host
    · simp [Fleet.next, heq] at hsteady
    · simp only [Fleet.next, Function.update_of_ne heq] at hsteady ⊢
      exact h.steady_up x hsteady
  steady_missed x hx hsteady := by
    by_cases heq : x = host
    · simp [Fleet.next, heq] at hsteady
    · simp only [Fleet.next, Function.update_of_ne heq] at hsteady
      exact h.steady_missed x hx hsteady

theorem InLine.comesUp (h : InLine c keystone r s news n) {host : Host}
    (hmissed : s.missed host ≤ c.maxActiveKeys - 2) :
    InLine c keystone r (s.next c keystone (.comesUp host)) news n where
  missed_le := h.missed_le
  repo_eq := h.repo_eq
  up_missed x hx hup := by
    by_cases heq : x = host
    · rw [heq]
      exact hmissed
    · simp only [Fleet.next, Function.update_of_ne heq] at hup
      exact h.up_missed x hx hup
  steady_up x hsteady := by
    by_cases heq : x = host
    · simp [Fleet.next, heq]
    · simp only [Fleet.next, Function.update_of_ne heq]
      exact h.steady_up x hsteady
  steady_missed := h.steady_missed

/-- A run on the newest keys adds a version, which the hosts that take part in it get. -/
theorem InLine.rotates (h : InLine c keystone r s news n) {self : Host} {new : Key}
    (hen : s.Enabled keystone (.rotates self new))
    (hcalm : Undisturbed c keystone s (.rotates self new)) :
    InLine c keystone r (s.next c keystone (.rotates self new)) (Function.update news n new)
      (n + 1) where
  missed_le x := by
    have hle := h.missed_le x
    simp only [Fleet.next, missedAfter]
    split <;> omega
  repo_eq x := by
    have hold : ∀ m ≤ n, version c.maxActiveKeys (Function.update news n new) r m =
        version c.maxActiveKeys news r m := by
      intro m hm
      exact version_congr fun i hi => Function.update_of_ne (by omega) _ _
    simp only [Fleet.next, missedAfter, fernetRotate_apply c keystone hen.1]
    by_cases hx : x = self ∨ x ∈ reached keystone s.up self
    · rw [if_pos hx, if_pos hx, h.repo_eq self, hcalm.1, Nat.sub_zero, Nat.sub_zero, version,
        hold n (Nat.le_refl n), Function.update_self]
    · rw [if_neg hx, if_neg hx, Nat.add_sub_add_right, hold _ (Nat.sub_le _ _)]
      exact h.repo_eq x
  up_missed x hx hup := (hcalm.2 x hx hup).1
  steady_up := h.steady_up
  steady_missed x hx hsteady := (hcalm.2 x hx (h.steady_up x hsteady)).2 hsteady

omit [DecidableEq Host] in
theorem InLine.tokensValid (h : InLine c keystone r s news n) : s.TokensValid keystone := by
  intro a ha b hb _ hupa _ hsteady
  have hma := h.up_missed a ha hupa
  have hmb := h.steady_missed b hb hsteady
  have hna := h.missed_le a
  rw [h.repo_eq a, h.repo_eq b]
  exact version_reads (by omega) (by omega)

omit [DecidableEq Host] in
theorem inLine_start (r : KeyRing Key) (new : Key) :
    InLine c keystone r (Fleet.start r) (fun _ => new) 0 where
  missed_le _ := Nat.le_refl 0
  repo_eq _ := rfl
  up_missed _ _ _ := Nat.zero_le _
  steady_up _ _ := rfl
  steady_missed _ _ _ := Nat.zero_le _

theorem reach_inLine (hr : Fleet.Reach c keystone (Undisturbed c keystone) r s) :
    ∃ news n, InLine c keystone r s news n := by
  induction hr with
  | start => exact ⟨_, _, inLine_start r r.staged⟩
  | @next s ev _ hen hcalm ih =>
    obtain ⟨news, n, h⟩ := ih
    cases ev with
    | goesDown host => exact ⟨news, n, h.goesDown host⟩
    | comesUp host => exact ⟨news, n, h.comesUp hcalm⟩
    | rotates self new => exact ⟨_, _, h.rotates hen hcalm⟩

/-! ## A host that is cut off -/

/-- The hosts are in the group in this order. -/
def threeHosts : List String := ["control01", "control02", "control03"]

def firstKeys : KeyRing Nat := ⟨1, 0, []⟩

/-- With `control01` down, the push of `control02` ends before `control03`. -/
def cutOff : List (Event String Nat) :=
  [.goesDown "control01", .rotates "control02" 2, .rotates "control02" 3]

theorem push_stops_early :
    ¬ ∀ (c : FernetSettings) (keystone : List String) (r : KeyRing Nat) (s : Fleet String Nat),
      keystone.Nodup → 2 ≤ keystone.length →
        Fleet.Reach c keystone (fun _ _ => True) r s → s.TokensValid keystone := by
  intro h
  have hadmits : (Fleet.start firstKeys).Admits {} threeHosts (fun _ _ => True) cutOff :=
    ⟨trivial, trivial, ⟨by decide, rfl⟩, trivial, ⟨by decide, rfl⟩, trivial, trivial⟩
  have hvalid := h {} threeHosts firstKeys _ (by decide) (by decide) (.run {} _ _ .start hadmits)
    "control02" (by decide) "control03" (by decide) (by decide) rfl rfl rfl
  exact absurd hvalid (by decide)

/-- **Tokens stay valid.** In every undisturbed run a token of any reachable host can be validated
on every other one that has been up throughout. -/
theorem tokens_valid (hr : Fleet.Reach c keystone (Undisturbed c keystone) r s) :
    s.TokensValid keystone := by
  obtain ⟨news, n, h⟩ := reach_inLine hr
  exact h.tokensValid

/-- `control03` is left out for the first time. -/
theorem tokens_valid_once :
    Fleet.TokensValid threeHosts
      ((cutOff.take 2).foldl (Fleet.next {} threeHosts) (Fleet.start firstKeys)) := by
  have hadmits : (Fleet.start firstKeys).Admits {} threeHosts (Undisturbed {} threeHosts)
      (cutOff.take 2) := by
    refine ⟨trivial, trivial, ⟨by decide, rfl⟩, ⟨rfl, ?_⟩, trivial⟩
    decide
  exact tokens_valid (.run {} _ _ .start hadmits)

end Keystone
end KollaPowerOps
