import KollaPowerOps.Container.Drift

/-!
# Container.Mounts

What a list of volumes comes to, entry by entry.

* `VolumeEntry` : an entry, by its form.
* `Carries`     : volumes and binds that have what the entries ask for, and nothing else.
* `Received`    : those of `generate_volumes`, and those that are passed on, do.
* `received_iff` : the lists of which this holds.
-/

namespace KollaPowerOps
namespace Container

/-- An entry of a list of volumes. -/
inductive VolumeEntry where
  | blank
  | target (dst : Text) (named : dst ≠ []) (plain : ':' ∉ dst)
  | mount (src dst : Text) (mode : Option Text) (src_plain : ':' ∉ src) (dst_plain : ':' ∉ dst)

namespace VolumeEntry

def text : VolumeEntry → Text
  | blank => []
  | target dst _ _ => dst
  | mount src dst none _ _ => src ++ ':' :: dst
  | mount src dst (some mode) _ _ => src ++ ':' :: (dst ++ ':' :: mode)

def destination : VolumeEntry → Option Text
  | blank => none
  | target dst _ _ => some dst
  | mount _ dst _ _ _ => some dst

def bind : VolumeEntry → Option (Text × VolumeBind)
  | mount src dst mode _ _ => some (src, { bind := dst, mode := mode.getD "rw".toList })
  | _ => none

/-- Without a mode no path is mounted on a mere name, and the mode has no further part. -/
def Readable : VolumeEntry → Prop
  | mount src dst none _ _ => '/' ∉ src ∨ '/' ∈ dst
  | mount _ _ (some mode) _ _ => ':' ∉ mode
  | _ => True

theorem text_cases (e : VolumeEntry) :
    e = blank ∨ (∃ dst, e.text = dst ∧ dst ≠ [] ∧ ':' ∉ dst ∧ e.destination = some dst ∧
      e.bind = none) ∨ e.text ≠ [] ∧ ':' ∈ e.text ∧ ∃ b, e.bind = some b := by
  cases e with
  | blank => exact .inl rfl
  | target dst named plain => exact .inr (.inl ⟨dst, rfl, named, plain, rfl, rfl⟩)
  | mount src dst mode src_plain dst_plain =>
    refine .inr (.inr ?_)
    cases mode with
    | none => exact ⟨by simp [text], by simp [text], _, rfl⟩
    | some mode => exact ⟨by simp [text], by simp [text], _, rfl⟩

theorem destination_of_bind {e : VolumeEntry} {b : Text × VolumeBind} (h : e.bind = some b) :
    e.destination = some b.2.bind := by
  cases e with
  | blank => cases h
  | target dst named plain => cases h
  | mount src dst mode src_plain dst_plain =>
    cases h
    rfl

end VolumeEntry

namespace Docker

open VolumeEntry

/-! ## Reading an entry -/

theorem bindOf_text {e : VolumeEntry} (h : e.Readable) (hcolon : ':' ∈ e.text) :
    bindOf e.text = e.bind := by
  cases e with
  | blank => cases hcolon
  | target dst named plain => exact absurd hcolon plain
  | mount src dst mode src_plain dst_plain =>
    cases mode with
    | none =>
      have hsplit : (src ++ ':' :: dst).splitOn ':' = [src, dst] := by
        rw [List.splitOn_append_cons_self_of_not_mem src_plain, List.splitOn_eq_singleton dst_plain]
      have hdefault : '/' ∉ src ∨ '/' ∈ dst := h
      rw [VolumeEntry.text, bindOf, hsplit, defaultMode, if_pos hdefault]
      rfl
    | some mode =>
      have hmode : ':' ∉ mode := h
      exact (congrArg bindOf (by simp [VolumeEntry.text, bindText])).trans
        (bindOf_bindText (e := (src, ⟨dst, mode⟩)) ⟨src_plain, dst_plain, hmode⟩)

theorem readable_of_bindOf {e : VolumeEntry} {b : Text × VolumeBind} (h : bindOf e.text ≠ none)
    (hb : e.bind = some b) (hplain : ':' ∉ b.2.mode) : e.Readable := by
  cases e with
  | blank => trivial
  | target dst named plain => trivial
  | mount src dst mode src_plain dst_plain =>
    cases hb
    cases mode with
    | some mode => exact hplain
    | none =>
      have hsplit : (src ++ ':' :: dst).splitOn ':' = [src, dst] := by
        rw [List.splitOn_append_cons_self_of_not_mem src_plain, List.splitOn_eq_singleton dst_plain]
      by_contra hdefault
      have hnot : ¬ ('/' ∉ src ∨ '/' ∈ dst) := hdefault
      rw [VolumeEntry.text, bindOf, hsplit, defaultMode, if_neg hnot] at h
      exact h rfl

theorem destinationOf_text {e : VolumeEntry} (h : e.Readable) (hne : e.text ≠ []) :
    destinationOf e.text = e.destination := by
  rcases e.text_cases with rfl | ⟨dst, htext, _, hplain, hdst, _⟩ | ⟨_, hcolon, b, hb⟩
  · exact absurd rfl hne
  · rw [destinationOf, htext, if_neg hplain, hdst]
  · rw [destinationOf, if_pos hcolon, bindOf_text h hcolon, hb, destination_of_bind hb]
    rfl

/-- Of readable entries each destination is found, and each bind. -/
theorem mem_destinations_texts {entries : List VolumeEntry} (h : ∀ e ∈ entries, e.Readable)
    {dst : Text} : dst ∈ destinations (entries.map text) ↔ ∃ e ∈ entries, e.destination = some dst := by
  rw [destinations, List.mem_filterMap]
  constructor
  · rintro ⟨vol, hvol, hdst⟩
    obtain ⟨hvol, hne⟩ := List.mem_filter.mp hvol
    obtain ⟨e, he, rfl⟩ := List.mem_map.mp hvol
    rw [destinationOf_text (h e he) (of_decide_eq_true hne)] at hdst
    exact ⟨e, he, hdst⟩
  · rintro ⟨e, he, hdst⟩
    have hne : e.text ≠ [] := by
      rcases e.text_cases with rfl | ⟨dst, htext, hne, _⟩ | ⟨hne, _⟩
      · cases hdst
      · rwa [htext]
      · exact hne
    refine ⟨e.text, List.mem_filter.mpr ⟨List.mem_map_of_mem he, decide_eq_true hne⟩, ?_⟩
    rw [destinationOf_text (h e he) hne, hdst]

theorem mem_binds_texts {entries : List VolumeEntry} (h : ∀ e ∈ entries, e.Readable)
    {b : Text × VolumeBind} : b ∈ binds (entries.map text) ↔ ∃ e ∈ entries, e.bind = some b := by
  rw [binds, List.mem_filterMap]
  constructor
  · rintro ⟨vol, hvol, hb⟩
    obtain ⟨hvol, hcolon⟩ := List.mem_filter.mp hvol
    obtain ⟨e, he, rfl⟩ := List.mem_map.mp hvol
    rw [bindOf_text (h e he) (of_decide_eq_true hcolon)] at hb
    exact ⟨e, he, hb⟩
  · rintro ⟨e, he, hb⟩
    have hcolon : ':' ∈ e.text := by
      rcases e.text_cases with rfl | ⟨dst, _, _, _, _, hnone⟩ | ⟨_, hcolon, _⟩
      · cases hb
      · rw [hnone] at hb
        cases hb
      · exact hcolon
    refine ⟨e.text, List.mem_filter.mpr ⟨List.mem_map_of_mem he, decide_eq_true hcolon⟩, ?_⟩
    rw [bindOf_text (h e he) hcolon, hb]

/-! ## Nothing lost, nothing else -/

theorem bindOf_of_generated {vols : List Text} {v w : Volumes}
    (h : vols.foldlM generateVolume v = .ok w) : ∀ vol ∈ vols, ':' ∈ vol → bindOf vol ≠ none := by
  induction vols generalizing v with
  | nil => nofun
  | cons first vols ih =>
    rw [List.foldlM_cons, pyBind_ok] at h
    obtain ⟨v', hfirst, h⟩ := h
    intro vol hvol hcolon hnone
    rcases List.mem_cons.mp hvol with rfl | hvol
    · rw [generateVolume_eq, if_neg (List.ne_nil_of_mem hcolon), if_neg (not_not.mpr hcolon),
        hnone] at hfirst
      cases hfirst
    · exact ih h vol hvol hcolon hnone

theorem generateVolumes_iff {vols : List Text} :
    (∃ volumes, generateVolumes (some vols) = .ok volumes) ↔
      ∀ vol ∈ vols, ':' ∈ vol → bindOf vol ≠ none := by
  refine ⟨fun ⟨volumes, h⟩ => ?_, generateVolumes_total⟩
  cases vols with
  | nil => nofun
  | cons vol vols =>
    change ((vol :: vols).foldlM generateVolume {}).map some = .ok volumes at h
    cases hv : (vol :: vols).foldlM generateVolume {} with
    | error e =>
      rw [hv] at h
      cases h
    | ok v => exact bindOf_of_generated hv

/-- The volumes and binds that an engine is given have what the entries ask for. -/
structure Carries (entries : List VolumeEntry) (volumes : Option (List Text))
    (binds : Option (OrderedDict Text VolumeBind)) : Prop where
  destination : ∀ dst, dst ∈ volumes.getD [] ↔ ∃ e ∈ entries, e.destination = some dst
  bind : ∀ b, b ∈ (binds.getD .empty).entries ↔ ∃ e ∈ entries, e.bind = some b

structure Received (rt : PyRuntime) (p : Params) (entries : List VolumeEntry) : Prop where
  generated : ∃ volumes, generateVolumes (some (entries.map text)) = .ok volumes ∧
    Carries entries (volumes.map Volumes.volList) (volumes.map Volumes.volDict)
  passed : ∀ options,
    buildContainerOptions rt { p with volumes := some (entries.map text) } = .ok options →
      Carries entries options.volumes options.hostConfig.binds

/-- Each entry can be read, and those with one source have one destination and one mode. -/
structure Compatible (entries : List VolumeEntry) : Prop where
  readable : ∀ e ∈ entries, e.Readable
  agree : ∀ e ∈ entries, ∀ e' ∈ entries, ∀ b b', e.bind = some b → e'.bind = some b' →
    b.1 = b'.1 → b = b'

variable {entries : List VolumeEntry} {volumes : Option Volumes}

theorem Compatible.carries (h : Compatible entries)
    (hvolumes : generateVolumes (some (entries.map text)) = .ok volumes) :
    Carries entries (volumes.map Volumes.volList) (volumes.map Volumes.volDict) := by
  obtain ⟨hlist, hdict⟩ := generateVolumes_ok hvolumes
  refine ⟨fun dst => ?_, fun b => ?_⟩
  · rw [hlist]
    exact mem_destinations_texts h.readable
  · rw [hdict]
    refine Iff.trans (OrderedDict.mem_ofList fun b hb b' hb' hsource => ?_)
      (mem_binds_texts h.readable)
    obtain ⟨e, he, hbind⟩ := (mem_binds_texts h.readable).mp hb
    obtain ⟨e', he', hbind'⟩ := (mem_binds_texts h.readable).mp hb'
    exact h.agree e he e' he' b b' hbind hbind' hsource

theorem Carries.compatible (hvolumes : generateVolumes (some (entries.map text)) = .ok volumes)
    (h : Carries entries (volumes.map Volumes.volList) (volumes.map Volumes.volDict)) :
    Compatible entries := by
  have hdict := (generateVolumes_ok hvolumes).2
  refine ⟨fun e he => ?_, fun e he e' he' b b' hb hb' hsource => ?_⟩
  · cases hb : e.bind with
    | none => cases e with
      | blank => trivial
      | target dst named plain => trivial
      | mount src dst mode src_plain dst_plain => cases hb
    | some b =>
      have hcolon : ':' ∈ e.text := by
        rcases e.text_cases with rfl | ⟨_, _, _, _, _, hnone⟩ | ⟨_, hcolon, _⟩
        · cases hb
        · rw [hnone] at hb
          cases hb
        · exact hcolon
      have hmem := (h.bind b).mpr ⟨e, he, hb⟩
      rw [hdict] at hmem
      have hread := generateVolumes_iff.mp ⟨_, hvolumes⟩ _ (List.mem_map_of_mem he) hcolon
      exact readable_of_bindOf hread hb (plain_dict hmem).2.2
  · have hmem := (h.bind b).mpr ⟨e, he, hb⟩
    have hmem' := (h.bind b').mpr ⟨e', he', hb'⟩
    rw [OrderedDict.mem_entries] at hmem hmem'
    rw [hsource, hmem'] at hmem
    exact Prod.ext hsource (Option.some.inj hmem).symm

/-- **Every requested volume is received** just when the entries are compatible. -/
theorem received_iff (rt : PyRuntime) (p : Params) (entries : List VolumeEntry) :
    Received rt p entries ↔ Compatible entries := by
  constructor
  · rintro ⟨⟨volumes, hvolumes, hcarries⟩, -⟩
    exact hcarries.compatible hvolumes
  · intro h
    refine ⟨?_, fun options hoptions => ?_⟩
    · obtain ⟨volumes, hvolumes⟩ :
          ∃ volumes, generateVolumes (some (entries.map text)) = .ok volumes := by
        refine generateVolumes_total fun vol hvol hcolon => ?_
        obtain ⟨e, he, rfl⟩ := List.mem_map.mp hvol
        rcases e.text_cases with rfl | ⟨dst, htext, _, hplain, _⟩ | ⟨_, _, b, hb⟩
        · cases hcolon
        · rw [htext] at hcolon
          exact absurd hcolon hplain
        · rw [bindOf_text (h.readable e he) hcolon, hb]
          exact Option.some_ne_none b
      exact ⟨volumes, hvolumes, h.carries hvolumes⟩
    · rw [buildContainerOptions, pyBind_ok] at hoptions
      obtain ⟨volumes, hvolumes, hoptions⟩ := hoptions
      rw [pyBind_ok] at hoptions
      obtain ⟨hostConfig, hhost, hoptions⟩ := hoptions
      rw [pyBind_ok] at hoptions
      obtain ⟨healthcheck, -, hoptions⟩ := hoptions
      cases hoptions
      rw [buildHostConfig, pyBind_ok] at hhost
      obtain ⟨resources, -, hhost⟩ := hhost
      cases hhost
      exact h.carries hvolumes

theorem logs_plain : ':' ∉ "kolla_logs".toList := by decide

theorem logsPath_plain : ':' ∉ "/var/log/kolla".toList := by decide

theorem secondPath_plain : ':' ∉ "/logs".toList := by decide

def logsMount : VolumeEntry :=
  .mount "kolla_logs".toList "/var/log/kolla".toList none logs_plain logsPath_plain

def readOnlyMount : VolumeEntry :=
  .mount "kolla_logs".toList "/logs".toList (some "ro".toList) logs_plain secondPath_plain

def twoPlaces : Params where
  name := "fluentd".toList
  image := "fluentd".toList
  volumes := some ([logsMount, readOnlyMount].map text)

/-- One volume at two places: only the later bind is left. -/
theorem two_places_merged :
    (generateVolumes twoPlaces.volumes).toOption.map
        (fun volumes => volumes.map fun v => (v.volList, v.volDict.entries)) =
      some (some (["/var/log/kolla".toList, "/logs".toList],
        [("kolla_logs".toList, ⟨"/logs".toList, "ro".toList⟩)])) ∧
      ¬ Received .ascii twoPlaces [logsMount, readOnlyMount] := by
  refine ⟨rfl, fun h => ?_⟩
  obtain ⟨volumes, hvolumes, hcarries⟩ := h.generated
  have hagree := (hcarries.compatible hvolumes).agree logsMount (by simp) readOnlyMount (by simp)
  have hsame := congrArg (fun b => b.2.mode) (hagree _ _ rfl rfl rfl)
  exact absurd hsame (by decide)

end Docker
end Container
end KollaPowerOps
