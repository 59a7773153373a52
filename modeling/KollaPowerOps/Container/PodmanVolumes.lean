import KollaPowerOps.Lib.Matching
import KollaPowerOps.Lib.OrderedDict
import KollaPowerOps.Container.VolumeSpec

/-!
# Container.PodmanVolumes

`parse_volumes` of the Podman worker: the volumes of a container as mounts and as named volumes.

* `parseVolumes`  : the loop over the written volumes.
* `Honours`       : a mount or a named volume is what an entry asks for, with all of its options.
* `Expressible`   : the options of an entry that the parser passes on.
* `volumes_honoured_iff` : every entry is honoured, one mount or volume for each, if and only if the
  options of all entries are expressible and no named volume is listed twice.
-/

namespace KollaPowerOps
namespace Container

/-! ## The parser -/

/-- `fail_json`, with its message. -/
structure Failure where
  msg : Text
  deriving DecidableEq, Repr

inductive MountType where
  | bind
  | devpts
  deriving DecidableEq, Repr

/-- An item of `args['mounts']`. A key that is not set is `none`; `relabel` never is. -/
structure Mount where
  source : Text
  target : Text
  type : MountType
  propagation : Option Text := none
  readOnly : Option Bool := none
  relabel : Option Text := none
  deriving DecidableEq, Repr

/-- A value of `args['volumes']`. -/
structure VolumeBind where
  bind : Text
  mode : Text
  deriving DecidableEq, Repr

/-- The two structures that the parser fills. -/
structure ParsedVolumes where
  mounts : List Mount := []
  filteredVolumes : OrderedDict Text VolumeBind := .empty

/-- `src, dest` or `src, dest, mode` of an item, by its number of colons. -/
def splitItem (item : Text) : Except Failure (Text × Text × Option Text) :=
  match item.splitOn ':' with
  | [src, dest] => .ok (src, dest, none)
  | [src, dest, mode] => .ok (src, dest, some mode)
  | _ => .error ⟨"Wrong format of volume: ".toList ++ item⟩

def bindMount (src dest : Text) (mode : Option Text) : Mount where
  source := src
  target := dest
  type := .bind
  propagation := if mode = some "shared".toList then "shared".toList else "rprivate".toList
  readOnly := if mode = some "ro".toList then some true else none

/-- One pass of the loop. -/
def parseItem (parsed : ParsedVolumes) (item : Text) : Except Failure ParsedVolumes := do
  let (src, dest, mode) ← splitItem item
  -- if it starts with / it is bind not volume
  if item.head? = some '/' then
    pure { parsed with mounts := parsed.mounts ++ [bindMount src dest mode] }
  else if src = "devpts".toList then
    pure { parsed with
      mounts := parsed.mounts ++ [{ source := src, target := dest, type := .devpts }] }
  else
    pure { parsed with
      filteredVolumes :=
        parsed.filteredVolumes.set src { bind := dest, mode := mode.getD "rw".toList } }

def parseVolumes (volumes : List Text) : Except Failure ParsedVolumes :=
  (volumes.filter fun item => PyText.strip item ≠ []).foldlM parseItem {}

/-! ## What an entry asks for -/

namespace VolumeRequest

/-- A path of the host. -/
def isPath (r : VolumeRequest) : Bool := r.source.head? = some '/'

def isDevpts (r : VolumeRequest) : Bool := r.source = "devpts".toList

/-- The name of a volume. -/
def isNamed (r : VolumeRequest) : Bool := !r.isPath && !r.isDevpts

/-- The options as they are written, or the default. -/
def words (r : VolumeRequest) : List Text :=
  if r.options = [] then ["rw".toList] else r.options.map VolumeOption.text

end VolumeRequest

/-- An item that the parser gives to the engine. -/
inductive Delivered where
  | mount (m : Mount)
  | volume (name : Text) (b : VolumeBind)
  deriving DecidableEq

def ParsedVolumes.delivered (parsed : ParsedVolumes) : List Delivered :=
  parsed.mounts.map .mount ++ parsed.filteredVolumes.entries.map fun e => .volume e.1 e.2

/-- The mount has the options of the entry: it is read-only where `ro` is among them, it has the
propagation and the label that are asked for, and else the default. -/
structure MountHonours (m : Mount) (r : VolumeRequest) : Prop where
  kind : r.isNamed = false
  source : m.source = r.source
  target : m.target = r.target
  readOnly : m.readOnly = some true ↔ .ro ∈ r.options
  propagation : ∀ p, .propagation p ∈ r.options → m.propagation = some p.text
  noPropagation : (∀ p, .propagation p ∉ r.options) →
    m.propagation = none ∨ m.propagation = some Propagation.rprivate.text
  relabel : ∀ l, .relabel l ∈ r.options → m.relabel = some l.text
  noRelabel : (∀ l, .relabel l ∉ r.options) → m.relabel = none

/-- The named volume has the options of the entry, as they are written. -/
structure VolumeHonours (name : Text) (b : VolumeBind) (r : VolumeRequest) : Prop where
  kind : r.isNamed = true
  source : name = r.source
  target : b.bind = r.target
  mode : b.mode.splitOn ',' = r.words

def Honours : Delivered → VolumeRequest → Prop
  | .mount m, r => MountHonours m r
  | .volume name b, r => VolumeHonours name b r

/-- The parser gives the engine one item for each entry, and no other. -/
def Honoured (rs : List VolumeRequest) : Prop :=
  ∃ parsed, parseVolumes (rs.map VolumeRequest.text) = .ok parsed ∧
    Matched Honours parsed.delivered rs

/-- The options of an entry that the parser passes on. -/
def Expressible (r : VolumeRequest) : Prop :=
  if r.isPath then
    r.options = [.ro] ∨ r.options = [.propagation .shared] ∨
      ∀ o ∈ r.options, o = .rw ∨ o = .propagation .rprivate
  else if r.isDevpts then ∀ o ∈ r.options, o = .rw
  else True

/-! ## What the parser delivers -/

section Deliver

variable {r : VolumeRequest} {rs : List VolumeRequest}

/-- The mode that an entry is split into. -/
def VolumeRequest.mode? (r : VolumeRequest) : Option Text := if r.options = [] then none else some r.mode

theorem splitItem_text (r : VolumeRequest) : splitItem r.text = .ok (r.source, r.target, r.mode?) := by
  rw [splitItem, r.split_text, VolumeRequest.parts, VolumeRequest.mode?]
  by_cases hopts : r.options = []
  · rw [if_pos hopts, if_pos hopts]
  · rw [if_neg hopts, if_neg hopts]

/-- The mount for a path or for `devpts`. -/
def mountOf (r : VolumeRequest) : Mount :=
  if r.isPath then bindMount r.source r.target r.mode?
  else { source := r.source, target := r.target, type := .devpts }

def volumeOf (r : VolumeRequest) : VolumeBind :=
  { bind := r.target, mode := r.mode?.getD "rw".toList }

/-- What the parser delivers for an entry. -/
def deliver (r : VolumeRequest) : Delivered :=
  if r.isNamed then .volume r.source (volumeOf r) else .mount (mountOf r)

theorem parseItem_text (parsed : ParsedVolumes) (r : VolumeRequest) :
    parseItem parsed r.text = .ok (if r.isNamed then
      { parsed with filteredVolumes := parsed.filteredVolumes.set r.source (volumeOf r) }
    else { parsed with mounts := parsed.mounts ++ [mountOf r] }) := by
  unfold parseItem VolumeRequest.isNamed mountOf
  rw [splitItem_text, r.head_text]
  by_cases hpath : r.isPath = true
  · have hhead : r.source.head? = some '/' := of_decide_eq_true hpath
    simp [hpath, hhead, bind, Except.bind, pure, Except.pure]
  · have hhead : r.source.head? ≠ some '/' := fun h => hpath (decide_eq_true h)
    by_cases hdev : r.isDevpts = true
    · have hsource : r.source = "devpts".toList := of_decide_eq_true hdev
      simp only [bind, Except.bind, pure, Except.pure, if_neg hhead, if_pos hsource]
      simp [hpath, hdev]
    · have hsource : r.source ≠ "devpts".toList := fun h => hdev (decide_eq_true h)
      simp only [bind, Except.bind, pure, Except.pure, if_neg hhead, if_neg hsource]
      simp [hpath, hdev, volumeOf]

/-- The names of the named volumes, in order. -/
def volumeNames (rs : List VolumeRequest) : List Text :=
  (rs.filter VolumeRequest.isNamed).map VolumeRequest.source

/-- What the parser has filled after the entries. -/
structure Filled (rs : List VolumeRequest) (parsed : ParsedVolumes) : Prop where
  mounts : parsed.mounts = (rs.filter fun r => !r.isNamed).map mountOf
  keys : parsed.filteredVolumes.keys = OrderedDict.firsts (volumeNames rs)
  entries : (volumeNames rs).Nodup → parsed.filteredVolumes.entries =
    (rs.filter VolumeRequest.isNamed).map fun r => (r.source, volumeOf r)

theorem filled_snoc {parsed : ParsedVolumes} (h : Filled rs parsed) (r : VolumeRequest) :
    Filled (rs ++ [r]) (if r.isNamed then
      { parsed with filteredVolumes := parsed.filteredVolumes.set r.source (volumeOf r) }
    else { parsed with mounts := parsed.mounts ++ [mountOf r] }) := by
  cases hnamed : r.isNamed with
  | true =>
    have hnames : volumeNames (rs ++ [r]) = volumeNames rs ++ [r.source] := by
      simp [volumeNames, hnamed]
    rw [if_pos rfl]
    refine ⟨?_, ?_, fun hnodup => ?_⟩
    · rw [h.mounts]
      simp [hnamed]
    · rw [hnames]
      exact OrderedDict.keys_set_firsts h.keys _ _
    · rw [hnames, List.nodup_append] at hnodup
      have hnew : r.source ∉ parsed.filteredVolumes.keys := by
        rw [h.keys, OrderedDict.mem_firsts]
        exact fun hmem => hnodup.2.2 _ hmem _ (List.mem_singleton.mpr rfl) rfl
      rw [OrderedDict.entries_set_of_not_mem _ hnew, h.entries hnodup.1]
      simp [hnamed]
  | false =>
    have hnames : volumeNames (rs ++ [r]) = volumeNames rs := by
      simp [volumeNames, hnamed]
    rw [if_neg Bool.false_ne_true]
    refine ⟨?_, ?_, fun hnodup => ?_⟩
    · rw [h.mounts]
      simp [hnamed]
    · rw [hnames]
      exact h.keys
    · rw [hnames] at hnodup
      rw [h.entries hnodup]
      simp [hnamed]

theorem parse_filled (rs : List VolumeRequest) :
    ∃ parsed, parseVolumes (rs.map VolumeRequest.text) = .ok parsed ∧ Filled rs parsed := by
  have hkept : (rs.map VolumeRequest.text).filter (fun item => PyText.strip item ≠ []) =
      rs.map VolumeRequest.text := by
    rw [List.filter_eq_self]
    intro item hitem
    obtain ⟨r, _, rfl⟩ := List.mem_map.mp hitem
    exact decide_eq_true r.strip_text
  rw [parseVolumes, hkept]
  clear hkept
  induction rs using List.reverseRecOn with
  | nil => exact ⟨{}, rfl, rfl, rfl, fun _ => rfl⟩
  | append_singleton rs r ih =>
    obtain ⟨parsed, hparsed, hfilled⟩ := ih
    refine ⟨_, ?_, filled_snoc hfilled r⟩
    rw [List.map_append, List.foldlM_append, hparsed]
    simp [bind, Except.bind, pure, Except.pure, parseItem_text]

/-- The mounts and the volumes are what the entries are delivered as. -/
theorem Filled.perm {parsed : ParsedVolumes} (h : Filled rs parsed) (hnodup : (volumeNames rs).Nodup) :
    parsed.delivered.Perm (rs.map deliver) := by
  have hmounts : parsed.mounts.map Delivered.mount = (rs.filter fun r => !r.isNamed).map deliver := by
    rw [h.mounts, List.map_map]
    refine List.map_congr_left fun r hr => ?_
    have hnamed : r.isNamed = false := by simpa using (List.mem_filter.mp hr).2
    simp [deliver, hnamed]
  have hvolumes : (parsed.filteredVolumes.entries.map fun e => Delivered.volume e.1 e.2) =
      (rs.filter VolumeRequest.isNamed).map deliver := by
    rw [h.entries hnodup, List.map_map]
    refine List.map_congr_left fun r hr => ?_
    simp [deliver, (List.mem_filter.mp hr).2]
  rw [ParsedVolumes.delivered, hmounts, hvolumes, ← List.map_append]
  refine List.Perm.map _ (List.perm_append_comm.trans ?_)
  exact List.filter_append_perm VolumeRequest.isNamed rs

/-- What is only said of mounts is counted over the entries. -/
theorem Filled.countP {parsed : ParsedVolumes} (h : Filled rs parsed) {p : Delivered → Bool}
    (hvolume : ∀ name b, p (.volume name b) = false) :
    parsed.delivered.countP p = rs.countP fun r => p (deliver r) := by
  have hnone : (parsed.filteredVolumes.entries.map fun e => Delivered.volume e.1 e.2).countP p = 0 := by
    rw [List.countP_eq_zero]
    intro d hd
    obtain ⟨e, _, rfl⟩ := List.mem_map.mp hd
    simp [hvolume]
  rw [ParsedVolumes.delivered, List.countP_append, hnone, h.mounts, List.map_map, List.countP_map,
    List.countP_filter, Nat.add_zero]
  refine List.countP_congr fun r _ => ?_
  cases hnamed : r.isNamed <;> simp [deliver, hnamed, hvolume]

/-! ## When the entries are honoured -/

theorem mode?_single {o : VolumeOption} : r.mode? = some o.text ↔ r.options = [o] := by
  unfold VolumeRequest.mode?
  by_cases hopts : r.options = []
  · rw [if_pos hopts, hopts]
    simp
  · rw [if_neg hopts, Option.some.injEq, VolumeRequest.mode_eq_single hopts]

theorem readOnly_mountOf : (mountOf r).readOnly = some true ↔ r.isPath = true ∧ r.options = [.ro] := by
  have hro : r.mode? = some "ro".toList ↔ r.options = [.ro] := mode?_single (o := .ro)
  unfold mountOf
  by_cases hpath : r.isPath = true
  · rw [if_pos hpath, bindMount, ← hro]
    by_cases hmode : r.mode? = some "ro".toList
    · simp only [hpath, hmode, if_true, true_and]
    · simp only [hpath, hmode, if_false, and_false, reduceCtorEq]
  · rw [if_neg hpath]
    simp only [hpath, reduceCtorEq, false_and]

theorem propagation_mountOf : (mountOf r).propagation = some Propagation.shared.text ↔
    r.isPath = true ∧ r.options = [.propagation .shared] := by
  have hshared : r.mode? = some "shared".toList ↔ r.options = [.propagation .shared] :=
    mode?_single (o := .propagation .shared)
  have hdefault : "rprivate".toList ≠ Propagation.shared.text := by decide
  unfold mountOf
  by_cases hpath : r.isPath = true
  · rw [if_pos hpath, bindMount, ← hshared]
    by_cases hmode : r.mode? = some "shared".toList
    · simp only [hpath, hmode, if_true, true_and, iff_true]
      rfl
    · simp only [hpath, hmode, if_false, and_false, Option.some.injEq, iff_false]
      exact hdefault
  · rw [if_neg hpath]
    simp only [hpath, reduceCtorEq, false_and]

theorem relabel_mountOf : (mountOf r).relabel = none := by
  unfold mountOf
  split <;> rfl

theorem source_mountOf : (mountOf r).source = r.source ∧ (mountOf r).target = r.target := by
  unfold mountOf
  split <;> exact ⟨rfl, rfl⟩

/-- Without `shared`, a path is mounted with the default propagation, and `devpts` with none. -/
theorem propagation_mountOf_else (h : (mountOf r).propagation ≠ some Propagation.shared.text) :
    (mountOf r).propagation = if r.isPath then some Propagation.rprivate.text else none := by
  unfold mountOf bindMount at h ⊢
  split
  · rename_i hpath
    rw [if_pos hpath] at h
    dsimp only at h ⊢
    split
    · rename_i hmode
      exact absurd (by rw [if_pos hmode]; rfl) h
    · rfl
  · rfl

theorem volume_honours (h : r.isNamed = true) : VolumeHonours r.source (volumeOf r) r := by
  refine ⟨h, rfl, rfl, ?_⟩
  unfold volumeOf VolumeRequest.mode? VolumeRequest.words
  by_cases hopts : r.options = []
  · rw [if_pos hopts, if_pos hopts]
    show "rw".toList.splitOn ',' = ["rw".toList]
    decide
  · rw [if_neg hopts, if_neg hopts]
    exact VolumeRequest.split_mode hopts

/-- A mount is as the entry wants it, if the entry asks for nothing that the parser leaves out. -/
theorem mount_honours (hnamed : r.isNamed = false) (h : Expressible r) :
    MountHonours (mountOf r) r := by
  have hkind : r.isPath = true ∨ r.isPath = false ∧ r.isDevpts = true := by
    unfold VolumeRequest.isNamed at hnamed
    revert hnamed
    cases r.isPath <;> cases r.isDevpts <;> simp
  unfold Expressible at h
  have hplain : (∀ o ∈ r.options, o = .rw ∨ r.isPath = true ∧ o = .propagation .rprivate) →
      MountHonours (mountOf r) r := by
    intro hall
    have hro : .ro ∉ r.options := fun hmem => by
      rcases hall _ hmem with h | ⟨_, h⟩ <;> cases h
    have hshared : (mountOf r).propagation ≠ some Propagation.shared.text := fun hprop => by
      have hopts := (propagation_mountOf.mp hprop).2
      rcases hall (.propagation .shared) (by rw [hopts]; simp) with h | ⟨_, h⟩ <;> cases h
    refine ⟨hnamed, source_mountOf.1, source_mountOf.2, ⟨fun hread => ?_, fun hmem => absurd hmem hro⟩,
      fun p hp => ?_, fun _ => ?_, fun l hl => ?_, fun _ => relabel_mountOf⟩
    · rw [(readOnly_mountOf.mp hread).2]
      simp
    · rcases hall _ hp with h | ⟨hpath, h⟩
      · cases h
      · cases h
        rw [propagation_mountOf_else hshared, if_pos hpath]
    · rw [propagation_mountOf_else hshared]
      split
      · exact .inr rfl
      · exact .inl rfl
    · rcases hall _ hl with h | ⟨_, h⟩ <;> cases h
  rcases hkind with hpath | ⟨hpath, hdev⟩
  · rw [if_pos hpath] at h
    rcases h with hopts | hopts | hall
    · have hread : (mountOf r).readOnly = some true := readOnly_mountOf.mpr ⟨hpath, hopts⟩
      have hshared : (mountOf r).propagation ≠ some Propagation.shared.text := fun hprop => by
        have hboth := (propagation_mountOf.mp hprop).2
        rw [hopts] at hboth
        cases hboth
      refine ⟨hnamed, source_mountOf.1, source_mountOf.2, ⟨fun _ => by rw [hopts]; simp, fun _ => hread⟩,
        fun p hp => ?_, fun _ => ?_, fun l hl => ?_, fun _ => relabel_mountOf⟩
      · rw [hopts] at hp
        simp at hp
      · rw [propagation_mountOf_else hshared, if_pos hpath]
        exact .inr rfl
      · rw [hopts] at hl
        simp at hl
    · have hprop : (mountOf r).propagation = some Propagation.shared.text :=
        propagation_mountOf.mpr ⟨hpath, hopts⟩
      refine ⟨hnamed, source_mountOf.1, source_mountOf.2, ⟨fun hread => ?_, fun hmem => ?_⟩,
        fun p hp => ?_, fun hnone => ?_, fun l hl => ?_, fun _ => relabel_mountOf⟩
      · have hboth := (readOnly_mountOf.mp hread).2
        rw [hopts] at hboth
        cases hboth
      · rw [hopts] at hmem
        simp at hmem
      · rw [hopts] at hp
        rw [hprop]
        simp only [List.mem_singleton, VolumeOption.propagation.injEq] at hp
        rw [hp]
      · exact absurd (by rw [hopts]; simp) (hnone .shared)
      · rw [hopts] at hl
        simp at hl
    · exact hplain fun o ho => (hall o ho).imp_right fun h => ⟨hpath, h⟩
  · rw [if_neg (by simp [hpath]), if_pos hdev] at h
    exact hplain fun o ho => .inl (h o ho)

theorem deliver_honours (h : Expressible r) : Honours (deliver r) r := by
  unfold deliver
  cases hnamed : r.isNamed with
  | true => exact volume_honours hnamed
  | false => exact mount_honours hnamed h

/-- The item is read-only. -/
def Delivered.isReadOnly : Delivered → Bool
  | .mount m => m.readOnly = some true
  | .volume _ _ => false

/-- The item is mounted with the propagation `shared`. -/
def Delivered.isShared : Delivered → Bool
  | .mount m => m.propagation = some Propagation.shared.text
  | .volume _ _ => false

/-- The entry is no named volume and has the option. -/
def VolumeRequest.wants (o : VolumeOption) (r : VolumeRequest) : Bool :=
  !r.isNamed && decide (o ∈ r.options)

theorem Propagation.text_injective {p p' : Propagation} (h : p.text = p'.text) : p = p' := by
  have hoption : VolumeOption.propagation p = .propagation p' := VolumeOption.text_injective h
  exact VolumeOption.propagation.inj hoption

theorem honours_readOnly {d : Delivered} (h : Honours d r) : d.isReadOnly = r.wants .ro := by
  cases d with
  | volume name b => simp [Delivered.isReadOnly, VolumeRequest.wants, h.kind]
  | mount m =>
    have hiff : m.readOnly = some true ↔ .ro ∈ r.options := h.readOnly
    simp [Delivered.isReadOnly, VolumeRequest.wants, h.kind, hiff]

theorem honours_shared {d : Delivered} (h : Honours d r) :
    d.isShared = r.wants (.propagation .shared) := by
  cases d with
  | volume name b => simp [Delivered.isShared, VolumeRequest.wants, h.kind]
  | mount m =>
    have hiff : m.propagation = some Propagation.shared.text ↔ .propagation .shared ∈ r.options := by
      refine ⟨fun hprop => ?_, h.propagation .shared⟩
      by_contra hnot
      by_cases hother : ∃ p, .propagation p ∈ r.options
      · obtain ⟨p, hp⟩ := hother
        have hp' := h.propagation p hp
        rw [hprop, Option.some.injEq] at hp'
        rw [← Propagation.text_injective hp'] at hp
        exact hnot hp
      · rw [not_exists] at hother
        rcases h.noPropagation hother with hnone | hnone
        · rw [hnone] at hprop
          cases hprop
        · rw [hnone, Option.some.injEq] at hprop
          cases Propagation.text_injective hprop
    simp [Delivered.isShared, VolumeRequest.wants, h.kind, hiff]

/-- Honoured, an entry that wants an option which is only said of mounts is delivered with it: the two
are counted alike. -/
theorem delivered_of_wants {p : Delivered → Bool} {o : VolumeOption}
    (hvolume : ∀ name b, p (.volume name b) = false)
    (hhonours : ∀ d r, Honours d r → p d = r.wants o)
    (hdeliver : ∀ r : VolumeRequest, p (deliver r) = true → r.wants o = true)
    (h : Honoured rs) (hr : r ∈ rs) (hwants : r.wants o = true) : p (deliver r) = true := by
  obtain ⟨parsed, hparsed, hmatched⟩ := h
  obtain ⟨parsed', hparsed', hfilled⟩ := parse_filled rs
  rw [hparsed] at hparsed'
  cases hparsed'
  have hcount : (rs.countP fun r => p (deliver r)) = rs.countP (VolumeRequest.wants o) := by
    rw [← hfilled.countP hvolume, hmatched.countP hhonours]
  exact all_of_countP_eq (fun r _ => hdeliver r) hcount r hr hwants

/-- Honoured, an entry that is no named volume is matched by a mount that the parser made for some
entry. -/
theorem mount_of_honoured (h : Honoured rs) (hr : r ∈ rs) (hnamed : r.isNamed = false) :
    ∃ r', r'.isNamed = false ∧ MountHonours (mountOf r') r := by
  obtain ⟨parsed, hparsed, hmatched⟩ := h
  obtain ⟨parsed', hparsed', hfilled⟩ := parse_filled rs
  rw [hparsed] at hparsed'
  cases hparsed'
  obtain ⟨d, hd, hhonours⟩ := hmatched.partner hr
  cases d with
  | volume name b =>
    have hkind : r.isNamed = true := hhonours.kind
    rw [hnamed] at hkind
    cases hkind
  | mount m =>
    have hm : m ∈ parsed.mounts := by
      rw [ParsedVolumes.delivered, List.mem_append, List.mem_map, List.mem_map] at hd
      rcases hd with ⟨m', hm', heq⟩ | ⟨e, _, heq⟩
      · cases heq
        exact hm'
      · cases heq
    rw [hfilled.mounts, List.mem_map] at hm
    obtain ⟨r', hr', rfl⟩ := hm
    exact ⟨r', by simpa using (List.mem_filter.mp hr').2, hhonours⟩

theorem deliver_readOnly (h : (deliver r).isReadOnly = true) :
    r.isPath = true ∧ r.options = [.ro] := by
  unfold deliver at h
  split at h
  · cases h
  · exact readOnly_mountOf.mp (of_decide_eq_true h)

theorem deliver_shared (h : (deliver r).isShared = true) :
    r.isPath = true ∧ r.options = [.propagation .shared] := by
  unfold deliver at h
  split at h
  · cases h
  · exact propagation_mountOf.mp (of_decide_eq_true h)

theorem wants_of_single {o : VolumeOption} (h : r.isPath = true ∧ r.options = [o]) :
    r.wants o = true := by
  simp [VolumeRequest.wants, VolumeRequest.isNamed, h.1, h.2]

theorem options_of_readOnly (h : Honoured rs) (hr : r ∈ rs) (hnamed : r.isNamed = false)
    (hro : .ro ∈ r.options) : r.isPath = true ∧ r.options = [.ro] := by
  have hwants : r.wants .ro = true := by simp [VolumeRequest.wants, hnamed, hro]
  exact deliver_readOnly (delivered_of_wants (fun _ _ => rfl) (fun _ _ => honours_readOnly)
    (fun _ hread => wants_of_single (deliver_readOnly hread)) h hr hwants)

theorem options_of_shared (h : Honoured rs) (hr : r ∈ rs) (hnamed : r.isNamed = false)
    (hshared : .propagation .shared ∈ r.options) :
    r.isPath = true ∧ r.options = [.propagation .shared] := by
  have hwants : r.wants (.propagation .shared) = true := by
    simp [VolumeRequest.wants, hnamed, hshared]
  exact deliver_shared (delivered_of_wants (fun _ _ => rfl) (fun _ _ => honours_shared)
    (fun _ hprop => wants_of_single (deliver_shared hprop)) h hr hwants)

/-- Beyond `ro` and `shared`, an entry that is honoured has the defaults only. -/
theorem options_of_else (h : Honoured rs) (hr : r ∈ rs) (hnamed : r.isNamed = false)
    (hro : .ro ∉ r.options) (hshared : .propagation .shared ∉ r.options) :
    ∀ o ∈ r.options, o = .rw ∨ r.isPath = true ∧ o = .propagation .rprivate := by
  obtain ⟨r', hnamed', hhonours⟩ := mount_of_honoured h hr hnamed
  have hpath : r'.isPath = r.isPath := by
    rw [VolumeRequest.isPath, VolumeRequest.isPath, ← hhonours.source, source_mountOf.1]
  have hnot : (mountOf r').propagation ≠ some Propagation.shared.text := fun hprop => by
    by_cases hother : ∃ p, .propagation p ∈ r.options
    · obtain ⟨p, hp⟩ := hother
      have hsame := hhonours.propagation p hp
      rw [hprop, Option.some.injEq] at hsame
      rw [← Propagation.text_injective hsame] at hp
      exact hshared hp
    · rcases hhonours.noPropagation (not_exists.mp hother) with hnone | hdefault
      · rw [hnone] at hprop
        cases hprop
      · rw [hdefault, Option.some.injEq] at hprop
        cases Propagation.text_injective hprop
  intro o ho
  cases o with
  | ro => exact absurd ho hro
  | rw => exact .inl rfl
  | relabel l =>
    have hlabel := hhonours.relabel l ho
    rw [relabel_mountOf] at hlabel
    cases hlabel
  | propagation p =>
    have hprop := hhonours.propagation p ho
    rw [propagation_mountOf_else hnot, hpath] at hprop
    by_cases hp : r.isPath = true
    · rw [if_pos hp, Option.some.injEq] at hprop
      rw [← Propagation.text_injective hprop]
      exact .inr ⟨hp, rfl⟩
    · rw [if_neg hp] at hprop
      cases hprop

/-- Honoured, an entry has no more than the parser passes on. -/
theorem expressible_of_honoured (h : Honoured rs) (hr : r ∈ rs) : Expressible r := by
  unfold Expressible
  cases hnamed : r.isNamed with
  | true =>
    rw [VolumeRequest.isNamed, Bool.and_eq_true, Bool.not_eq_true', Bool.not_eq_true'] at hnamed
    rw [if_neg (by simp [hnamed.1]), if_neg (by simp [hnamed.2])]
    trivial
  | false =>
    by_cases hro : .ro ∈ r.options
    · obtain ⟨hpath, hopts⟩ := options_of_readOnly h hr hnamed hro
      rw [if_pos hpath]
      exact .inl hopts
    by_cases hshared : .propagation .shared ∈ r.options
    · obtain ⟨hpath, hopts⟩ := options_of_shared h hr hnamed hshared
      rw [if_pos hpath]
      exact .inr (.inl hopts)
    have helse := options_of_else h hr hnamed hro hshared
    by_cases hpath : r.isPath = true
    · rw [if_pos hpath]
      exact .inr (.inr fun o ho => (helse o ho).imp_right fun hdefault => hdefault.2)
    · have hdev : r.isDevpts = true := by
        rw [VolumeRequest.isNamed, Bool.and_eq_false_iff] at hnamed
        rcases hnamed with hnot | hnot
        · exact absurd (by simpa using hnot) hpath
        · simpa using hnot
      rw [if_neg hpath, if_pos hdev]
      exact fun o ho => (helse o ho).resolve_right fun hdefault => hpath hdefault.1

/-- **The volumes are honoured exactly when** the options of every entry are expressible and no named
volume is listed twice. -/
theorem volumes_honoured_iff (rs : List VolumeRequest) :
    Honoured rs ↔ (∀ r ∈ rs, Expressible r) ∧ (volumeNames rs).Nodup := by
  constructor
  · intro h
    refine ⟨fun r hr => expressible_of_honoured h hr, OrderedDict.nodup_of_length_firsts ?_⟩
    obtain ⟨parsed, hparsed, hmatched⟩ := h
    obtain ⟨parsed', hparsed', hfilled⟩ := parse_filled rs
    rw [hparsed] at hparsed'
    cases hparsed'
    have hlength := hmatched.length
    have hsplit := List.length_eq_length_filter_add (l := rs) VolumeRequest.isNamed
    have hkeys : parsed.filteredVolumes.entries.length = (OrderedDict.firsts (volumeNames rs)).length := by
      rw [← hfilled.keys, OrderedDict.keys, List.length_map]
    rw [ParsedVolumes.delivered, List.length_append, List.length_map, List.length_map, hfilled.mounts,
      List.length_map, hkeys] at hlength
    rw [volumeNames, List.length_map]
    rw [volumeNames] at hlength
    omega
  · rintro ⟨hall, hnodup⟩
    obtain ⟨parsed, hparsed, hfilled⟩ := parse_filled rs
    exact ⟨parsed, hparsed, matched_map (hfilled.perm hnodup) fun r hr => deliver_honours (hall r hr)⟩

/-- The root of the host, read-only and with the propagation `rslave`, as the node exporter asks for
it. -/
def rootVolume : VolumeRequest where
  source := "/".toList
  target := "/host".toList
  options := [.ro, .propagation .rslave]
  named := by decide
  source_plain := by decide
  target_plain := by decide

/-- It is mounted read-write, and with another propagation. -/
theorem root_volume_not_honoured : ¬ ∀ rs, Honoured rs := by
  intro h
  have hexpressible : Expressible rootVolume :=
    expressible_of_honoured (h [rootVolume]) List.mem_cons_self
  rcases hexpressible with hopts | hopts | hall
  · cases hopts
  · cases hopts
  · rcases hall .ro (by decide) with h | h <;> cases h

end Deliver

end Container
end KollaPowerOps
