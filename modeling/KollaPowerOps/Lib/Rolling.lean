import KollaPowerOps.Lib.Linear

/-!
# Lib.Rolling

Members that are restarted in a play: a task takes the hosts it runs on down, some tasks wait, and
the last one brings them up again.

* `restart_always` : while some hosts restart together, no other member is down.
* `serial`         : the batches of a play, one after the other.
-/

namespace KollaPowerOps
namespace Linear

variable {H σ : Type} [DecidableEq H]

/-- The members that are down are among these hosts. -/
def DownWithin (up : σ → H → Bool) (members l : List H) (s : σ) : Prop :=
  ∀ h ∈ members, up s h = false → h ∈ l

omit [DecidableEq H] in
theorem DownWithin.mono {up : σ → H → Bool} {members l l' : List H} {s : σ}
    (h : DownWithin up members l s) (hsub : ∀ x ∈ l, x ∈ l') : DownWithin up members l' s :=
  fun x hx hdown => hsub x (h x hx hdown)

omit [DecidableEq H] in
/-- So many members are down at most. -/
theorem DownWithin.length_le {up : σ → H → Bool} {members l : List H} {s : σ}
    (h : DownWithin up members l s) (hmembers : members.Nodup) :
    (members.filter fun x => !up s x).length ≤ l.length := by
  refine (List.subperm_of_subset (hmembers.filter _) fun x hx => ?_).length_le
  obtain ⟨hmem, hup⟩ := List.mem_filter.mp hx
  exact h x hmem (by simpa using hup)

/-- A task that takes a host down, or brings it up, and keeps what holds before it. -/
structure Task.Sets (up : σ → H → Bool) (b : Bool) (P : σ → Prop) (t : Task H σ) : Prop where
  keeps : t.Keeps P
  sets : ∀ h s, up (t.run h s) = Function.update (up s) h b

/-- A task that leaves the members as they are. -/
structure Task.Waits (up : σ → H → Bool) (P : σ → Prop) (t : Task H σ) : Prop where
  keeps : t.Keeps P
  waits : ∀ h s, up (t.run h s) = up s

section Restart

variable {Safe P : σ → Prop} {up : σ → H → Bool} {members sel hosts : List H}
  {stop back : Task H σ} {waits : List (Task H σ)} {bs : List (Block H σ)} {s : σ}

theorem stop_step {done : List H} (hstop : stop.Sets up false P) (h : H)
    (hs : P s ∧ DownWithin up members done s) :
    P (stop.run h s) ∧ DownWithin up members (done ++ [h]) (stop.run h s) := by
  refine ⟨hstop.keeps.2 h s hs.1, fun x hx hdown => ?_⟩
  rw [hstop.sets] at hdown
  by_cases hxh : x = h
  · simp [hxh]
  · rw [Function.update_of_ne hxh] at hdown
    exact List.mem_append_left _ (hs.2 x hx hdown)

/-- The hosts a file is included for restart together, and no other member is down. -/
theorem restart_always (hhosts : hosts.Nodup) (hsel : ∀ h ∈ sel, h ∈ hosts)
    (hstop : stop.Sets up false P) (hwaits : ∀ t ∈ waits, t.Waits up P)
    (hback : back.Sets up true P) (hwhen : ∀ s, P s → ∀ h ∈ hosts, back.when s h = true)
    (hs : P s) (hup : DownWithin up members [] s) (hsafe : ∀ s, P s → DownWithin up members sel s → Safe s)
    (hnext : ∀ s, P s → DownWithin up members [] s →
      Always (fun p => Safe p.state) [] bs ⟨hosts, s⟩) :
    Always (fun p => Safe p.state) ((stop :: waits ++ [back]).map (Task.on · sel)) bs
      ⟨hosts, s⟩ := by
  have hin : ∀ {t : Task H σ} {s : σ} {h : H}, h ∈ (t.on sel).selected ⟨hosts, s⟩ → h ∈ sel := by
    intro t s h hh
    have hcond := (List.mem_filter.mp hh).2
    simp only [Task.on, Bool.and_eq_true, List.contains_iff_mem] at hcond
    exact hcond.1
  rw [List.cons_append, List.map_cons, List.map_append, List.map_singleton]
  -- one host after the other goes down
  refine always_run (J := fun done s' => P s' ∧ DownWithin up members done s') hstop.keeps.1
    hhosts ⟨hs, hup⟩ (fun _ h _ _ _ hJ => stop_step hstop h hJ)
    (fun done s' hdone hJ => hsafe s' hJ.1 (hJ.2.mono fun x hx => hin (hdone x hx)))
    fun done₁ s₁ hperm₁ hJ₁ => ?_
  have hdown₁ : DownWithin up members sel s₁ :=
    hJ₁.2.mono fun x hx => hin (hperm₁.mem_iff.mp hx)
  -- nothing changes while the play waits
  have hwaiting : ∀ {s₁ : σ}, P s₁ → DownWithin up members sel s₁ →
      Always (fun p => Safe p.state) (waits.map (Task.on · sel) ++ [back.on sel]) bs
        ⟨hosts, s₁⟩ := by
    clear hJ₁ hdown₁ hperm₁
    induction waits with
    | nil =>
      intro s₁ hs₁ hdown₁
      -- they come up again
      refine always_run (J := fun done s' => P s' ∧
        ∀ h ∈ members, up s' h = false → h ∈ sel ∧ h ∉ done) hback.keeps.1 hhosts
        ⟨hs₁, fun h hh hdown => ⟨hdown₁ h hh hdown, List.not_mem_nil⟩⟩ ?_
        (fun _ s' _ hJ => hsafe s' hJ.1 fun h hh hdown => (hJ.2 h hh hdown).1)
        fun done₂ s₂ hperm₂ hJ₂ => hnext s₂ hJ₂.1 fun h hh hdown => ?_
      · intro done h s' _ _ hJ
        refine ⟨hback.keeps.2 h s' hJ.1, fun x hx hdown => ?_⟩
        have hdown : up (back.run h s') x = false := hdown
        rw [hback.sets] at hdown
        by_cases hxh : x = h
        · simp [hxh] at hdown
        · rw [Function.update_of_ne hxh] at hdown
          have hx' := hJ.2 x hx hdown
          simp [hx'.1, hx'.2, hxh]
      · obtain ⟨hmem, hout⟩ := hJ₂.2 h hh hdown
        refine absurd (hperm₂.mem_iff.mpr (List.mem_filter.mpr ⟨hsel h hmem, ?_⟩)) hout
        simp only [Task.on, hwhen s₁ hs₁ h (hsel h hmem), Bool.and_true]
        exact List.contains_iff_mem.mpr hmem
    | cons t waits ih =>
      intro s₁ hs₁ hdown₁
      have ht := hwaits t List.mem_cons_self
      refine always_keep (P := fun s' => P s' ∧ DownWithin up members sel s') ht.keeps.1 hhosts
        ⟨hs₁, hdown₁⟩ (fun h s' _ hs' => ⟨ht.keeps.2 h s' hs'.1, fun x hx hdown => ?_⟩)
        (fun s' hs' => hsafe s' hs'.1 hs'.2)
        fun s' hs' => ih (fun t' ht' => hwaits t' (List.mem_cons_of_mem _ ht')) hs'.1 hs'.2
      have hdown : up (t.run h s') x = false := hdown
      rw [ht.waits] at hdown
      exact hs'.2 x hx hdown
  exact hwaiting hJ₁.1 hdown₁

end Restart

/-! ## Batches -/

/-- The next hosts that are left, `n` of them or one. -/
def batches (n : Nat) : List H → List (List H)
  | [] => []
  | h :: l => (h :: l.take (n - 1)) :: batches n (l.drop (n - 1))
termination_by l => l.length
decreasing_by simp only [List.length_cons, List.length_drop]; omega

omit [DecidableEq H] in
theorem mem_batches {n : Nat} {l b : List H} (hb : b ∈ batches n l) :
    b.Sublist l ∧ b.length ≤ max 1 n := by
  induction l using batches.induct n with
  | case1 => simp [batches] at hb
  | case2 h l ih =>
    rw [batches] at hb
    rcases List.mem_cons.mp hb with rfl | hb
    · refine ⟨(List.take_sublist _ _).cons_cons h, ?_⟩
      rw [List.length_cons, List.length_take]
      omega
    · exact ⟨((ih hb).1.trans (List.drop_sublist _ _)).cons h, (ih hb).2⟩

/-- The tasks of a play with `serial`. -/
def serial (n : Nat) (hosts : List H) (ts : List (Task H σ)) : List (Block H σ) :=
  (batches n hosts).map fun l => { when := fun _ h => l.contains h, tasks := ts }

section Serial

variable {Safe P : σ → Prop} {up : σ → H → Bool} {members hosts : List H}
  {stop back : Task H σ} {waits : List (Task H σ)} {s : σ} {n : Nat}

/-- While a batch restarts, no member outside of it is down. -/
theorem serial_always (hhosts : hosts.Nodup) (hstop : stop.Sets up false P)
    (hwaits : ∀ t ∈ waits, t.Waits up P) (hback : back.Sets up true P)
    (hwhen : ∀ s, P s → ∀ h ∈ hosts, back.when s h = true) (hs : P s)
    (hup : DownWithin up members [] s)
    (hsafe : ∀ l : List H, l.Nodup → l.length ≤ max 1 n → (∀ h ∈ l, h ∈ hosts) →
      ∀ s, P s → DownWithin up members l s → Safe s) :
    Always (fun p => Safe p.state) [] (serial n hosts (stop :: waits ++ [back])) ⟨hosts, s⟩ := by
  have hbatches : ∀ bs : List (List H), (∀ b ∈ bs, b ∈ batches n hosts) → ∀ s, P s →
      DownWithin up members [] s → Always (fun p => Safe p.state) []
        (bs.map fun l => { when := fun _ h => l.contains h, tasks := stop :: waits ++ [back] })
        ⟨hosts, s⟩ := by
    intro bs
    induction bs with
    | nil =>
      intro _ s hs hup
      exact always_nil (hsafe [] List.nodup_nil (by simp) (by simp) s hs hup)
    | cons b bs ih =>
      intro hbs s hs hup
      obtain ⟨hsub, hlength⟩ := mem_batches (hbs b List.mem_cons_self)
      have hsel : ∀ h ∈ hosts.filter b.contains, h ∈ b := fun h hh =>
        List.contains_iff_mem.mp (List.mem_filter.mp hh).2
      refine always_enter (restart_always hhosts (fun h hh => (List.mem_filter.mp hh).1) hstop hwaits
        hback hwhen hs hup (fun s hs hdown => ?_)
        (ih fun b' hb' => hbs b' (List.mem_cons_of_mem _ hb')))
      exact hsafe b (hhosts.sublist hsub) hlength (fun h hh => hsub.subset hh) s hs
        (hdown.mono hsel)
  exact hbatches _ (fun _ hb => hb) s hs hup

/-- At some moment the whole first batch is down. -/
theorem serial_exists (hhosts : hosts.Nodup) (hne : hosts ≠ []) (hstop : stop.Sets up false P)
    (hwhen : ∀ s h, stop.when s h = true)
    (h : Always (fun p => Safe p.state) [] (serial n hosts (stop :: waits ++ [back])) ⟨hosts, s⟩) :
    ∃ s, (∀ h ∈ hosts.take (max 1 n), up s h = false) ∧ Safe s := by
  obtain ⟨x, l, rfl⟩ := List.exists_cons_of_ne_nil hne
  have hfirst : (x :: l).take (max 1 n) = x :: l.take (n - 1) := by
    rw [show max 1 n = n - 1 + 1 by omega, List.take_succ_cons]
  rw [serial, batches, List.map_cons] at h
  obtain ⟨s₁, hdown, hrest⟩ := h.enter.run (J := fun done s => ∀ h ∈ done, up s h = false)
    hstop.keeps.1 hhosts (by simp) fun done h s _ _ hJ y hy => by
      change up (stop.run h s) y = false
      rw [hstop.sets]
      by_cases hyh : y = h
      · rw [hyh, Function.update_self]
      · rw [Function.update_of_ne hyh]
        exact hJ y (by simpa [hyh] using hy)
  refine ⟨s₁, fun y hy => hdown y (Task.mem_selected_on.mpr ?_), hrest.now⟩
  have hmem : y ∈ x :: l := List.mem_of_mem_take hy
  rw [hfirst] at hy
  exact ⟨hmem, List.mem_filter.mpr ⟨hmem, List.contains_iff_mem.mpr hy⟩, hwhen _ _⟩

end Serial

end Linear
end KollaPowerOps
