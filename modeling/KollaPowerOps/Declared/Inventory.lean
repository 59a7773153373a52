import KollaPowerOps.Declared.Cli
import KollaPowerOps.Lib.Lines

/-!
# Declared.Inventory

The group `[compute]` of an inventory, against the way `computeHosts` cuts it out of the text.

* `groupHosts`       : the group as the INI form has it, by lines.
* `computeHosts_eq`  : what is read, by lines.
* `AsWritten`        : when the two agree (`computeHosts_iff`).
-/

namespace KollaPowerOps
namespace Declared
namespace Inventory

open PyText Cli

abbrev Line := List Char

def marker : Line := "[compute]".toList

/-- A header of a section, on a line of its own. -/
def isHeader (line : Line) : Bool :=
  match strip line with
  | '[' :: name => name.getLast? == some ']' && name.dropLast.all fun c => c != '[' && c != ']'
  | _ => false

def isHash (line : Line) : Bool := ['#'].isPrefixOf (lstrip line)

def isSemicolon (line : Line) : Bool := [';'].isPrefixOf (lstrip line)

/-- A line that begins with a bracket is a header; the others are comments, hosts or blank. -/
def IniForm (text : List Char) : Prop :=
  ∀ line ∈ splitLines text, ['['].isPrefixOf (lstrip line) = true → isHeader line = true

def host (line : Line) : String := String.ofList (firstWord line)

def namedHosts (lines : List Line) : List String :=
  (lines.filter fun line => strip line != [] && !(isHash line || isSemicolon line)).map host

/-- The lines between the header of the group and the next header. -/
def groupLines : List Line → Option (List Line)
  | [] => none
  | line :: lines =>
    if strip line = marker then some (lines.takeWhile fun line => !isHeader line)
    else groupLines lines

def groupHosts (text : List Char) : Option (List String) :=
  (groupLines (splitLines text)).map namedHosts

/-- Hosts are a set. -/
def hostSet (hosts : Option (List String)) : Option (Set String) :=
  hosts.map fun hosts => {host | host ∈ hosts}

/-! ## What is read -/

def readHosts (lines : List Line) : List String :=
  (lines.filter fun line => strip line != [] && !isHash line).map host

theorem computeHosts_eq (text : List Char) :
    computeHosts text =
      (mention marker (splitLines text)).map fun lines => readHosts (cutAt '[' lines) := by
  have hmarker : OneLine marker := by
    intro c hc
    have hall : marker.all (fun c => !isLineBreak c) = true := rfl
    simpa using List.all_eq_true.mp hall c hc
  have hsection : inventorySection text "compute" = (after? marker text).map (before '[') := rfl
  rw [mention_splitLines (by decide) hmarker, computeHosts, hsection, Option.map_map,
    Option.map_map]
  refine congrFun (congrArg Option.map (funext fun rest => ?_)) _
  have hcut := filter_cutAt (c := '[') rfl
    (p := fun line : Line => strip line != [] && !isHash line) rfl rest
  change (List.filter (fun line : Line => strip line != [] && !isHash line) _).map host =
    (List.filter (fun line : Line => strip line != [] && !isHash line) _).map host
  rw [hcut]
  by_cases hnil : rest = []
  · rw [hnil]
    rfl
  · dsimp only
    rw [if_neg hnil]

/-! ## When it is what is written -/

def NoSemicolons (lines : List Line) : Prop := ∀ line ∈ lines, isSemicolon line = false

/-- The lines of the group up to their first bracket do for all of them: no comment there begins
with `;`, the bracket is not in the name of a host, and the hosts behind it are named before. -/
def Whole (lines : List Line) : Prop :=
  ((∀ line ∈ lines, '[' ∉ line) ∧ NoSemicolons lines) ∨
    ∃ first line rest, lines = first ++ line :: rest ∧ (∀ line ∈ first, '[' ∉ line) ∧
      '[' ∈ line ∧ NoSemicolons (first ++ [line]) ∧
      (isHash line = false → '[' ∉ firstWord line) ∧
      namedHosts rest ⊆ namedHosts (first ++ [line])

/-- Either no line mentions the group; or the first to do so is its header, and the group is read
whole; or an earlier line mentions it, and the words behind happen to be its hosts. -/
inductive AsWritten : List Line → Prop where
  | absent {lines : List Line} (hlines : ∀ line ∈ lines, after? marker line = none) :
      AsWritten lines
  | header {first : List Line} {line : Line} {rest : List Line}
      (hfirst : ∀ line ∈ first, after? marker line = none) (hline : strip line = marker)
      (hrest : Whole (rest.takeWhile fun line => !isHeader line)) :
      AsWritten (first ++ line :: rest)
  | earlier {first : List Line} {line tail : Line} {rest group : List Line}
      (hfirst : ∀ line ∈ first, after? marker line = none) (hline : strip line ≠ marker)
      (htail : after? marker line = some tail) (hgroup : groupLines rest = some group)
      (hsemicolons : NoSemicolons (cutAt '[' (tail :: rest)))
      (hhosts : ∀ host, host ∈ namedHosts (cutAt '[' (tail :: rest)) ↔ host ∈ namedHosts group) :
      AsWritten (first ++ line :: rest)

/-! ## Lines -/

theorem firstWord_head (line : Line) (hline : strip line ≠ []) :
    (firstWord line).head? = (lstrip line).head? := by
  have hword := firstWord_ne_nil hline
  rw [firstWord] at hword ⊢
  cases h : lstrip line with
  | nil =>
    rw [h] at hword
    exact absurd rfl hword
  | cons c s =>
    rw [h] at hword
    by_cases hc : isSpace c = true
    · simp [hc] at hword
    · simp [hc]

theorem namedHosts_append (a b : List Line) :
    namedHosts (a ++ b) = namedHosts a ++ namedHosts b := by
  rw [namedHosts, List.filter_append, List.map_append]
  rfl

theorem readHosts_append (a b : List Line) :
    readHosts (a ++ b) = readHosts a ++ readHosts b := by
  rw [readHosts, List.filter_append, List.map_append]
  rfl

theorem mem_namedHosts {lines : List Line} {name : String} : name ∈ namedHosts lines ↔
    ∃ line ∈ lines, strip line ≠ [] ∧ isHash line = false ∧ isSemicolon line = false ∧
      host line = name := by
  simp only [namedHosts, List.mem_map, List.mem_filter, Bool.and_eq_true, bne_iff_ne,
    Bool.not_eq_true', Bool.or_eq_false_iff, and_assoc]

theorem mem_readHosts {lines : List Line} {name : String} : name ∈ readHosts lines ↔
    ∃ line ∈ lines, strip line ≠ [] ∧ isHash line = false ∧ host line = name := by
  simp only [readHosts, List.mem_map, List.mem_filter, Bool.and_eq_true, bne_iff_ne,
    Bool.not_eq_true', and_assoc]

theorem readHosts_of_noSemicolons {lines : List Line} (hlines : NoSemicolons lines) :
    readHosts lines = namedHosts lines := by
  rw [readHosts, namedHosts]
  refine congrArg _ (List.filter_congr fun line hline => ?_)
  rw [hlines line hline, Bool.or_false]

theorem host_head {line : Line} (hline : strip line ≠ []) :
    (host line).toList.head? = (lstrip line).head? := by
  rw [host, String.toList_ofList, firstWord_head line hline]

theorem isSemicolon_iff {line : Line} :
    isSemicolon line = true ↔ (lstrip line).head? = some ';' := by
  rw [isSemicolon]
  cases lstrip line with
  | nil => exact iff_of_false Bool.false_ne_true nofun
  | cons c s =>
    rw [List.isPrefixOf_cons_cons, List.isPrefixOf_nil_left, Bool.and_true, beq_iff_eq,
      List.head?_cons, Option.some_inj, eq_comm]

/-- A comment that is read as a host is no host. -/
theorem noSemicolons_of_subset {lines group : List Line}
    (h : ∀ name ∈ readHosts lines, name ∈ namedHosts group) : NoSemicolons lines := by
  intro line hline
  by_contra hsemicolon
  rw [Bool.not_eq_false, isSemicolon_iff] at hsemicolon
  have hblank : strip line ≠ [] := by
    intro hnil
    have hl := List.rdropWhile_eq_nil_iff.mp (show (lstrip line).rdropWhile isSpace = [] from hnil)
    have hsome := hl ';' (List.mem_of_mem_head? hsemicolon)
    cases hsome
  have hhash : isHash line = false := by
    rw [isHash]
    cases hl : lstrip line with
    | nil => rfl
    | cons c s =>
      rw [hl, List.head?_cons, Option.some_inj] at hsemicolon
      rw [hsemicolon]
      rfl
  obtain ⟨line', -, hblank', -, hsemicolon', hhost⟩ :=
    mem_namedHosts.mp (h _ (mem_readHosts.mpr ⟨line, hline, hblank, hhash, rfl⟩))
  have hhead := host_head hblank'
  rw [hhost, host_head hblank, hsemicolon] at hhead
  rw [isSemicolon_iff.mpr hhead.symm] at hsemicolon'
  cases hsemicolon'

theorem not_bracket_mem_readHosts {lines : List Line} (hlines : ∀ line ∈ lines, '[' ∉ line)
    {name : String} (hname : name ∈ readHosts lines) : '[' ∉ name.toList := by
  obtain ⟨line, hline, -, -, rfl⟩ := mem_readHosts.mp hname
  intro hmem
  rw [host, String.toList_ofList] at hmem
  exact hlines line hline ((List.dropWhile_subset _) ((List.takeWhile_subset _) hmem))

/-! ## A line that is cut at a bracket -/

/-- The line does not begin with a bracket. -/
def Starts (line : Line) : Prop := ['['].isPrefixOf (lstrip line) = false

theorem lstrip_before {c : Char} (hc : isSpace c = false) (line : Line) :
    lstrip (before c line) = before c (lstrip line) := by
  induction line with
  | nil => rfl
  | cons d line ih =>
    by_cases hd : isSpace d = true
    · have hne : d ≠ c := by
        rintro rfl
        rw [hc] at hd
        cases hd
      rw [before_cons_of_ne hne, lstrip, List.dropWhile_cons_of_pos hd, lstrip,
        List.dropWhile_cons_of_pos hd]
      exact ih
    · rw [Bool.not_eq_true] at hd
      rw [lstrip_cons hd]
      by_cases hne : d = c
      · rw [hne, before_cons_self]
        rfl
      · rw [before_cons_of_ne hne, lstrip_cons hd]

theorem Starts.exists_cons {line : Line} (hline : Starts line) (hmem : '[' ∈ line) :
    ∃ c s, lstrip line = c :: s ∧ c ≠ '[' ∧ isSpace c = false ∧
      lstrip (before '[' line) = c :: before '[' s := by
  have hne : lstrip line ≠ [] := by
    intro hnil
    have hall := List.dropWhile_eq_nil_iff.mp hnil
    cases hall '[' hmem
  obtain ⟨c, s, hcs⟩ := List.exists_cons_of_ne_nil hne
  have hc : c ≠ '[' := by
    rintro rfl
    rw [Starts, hcs] at hline
    cases hline
  refine ⟨c, s, hcs, hc, head_lstrip line c (by rw [hcs]; rfl), ?_⟩
  rw [lstrip_before rfl, hcs, before_cons_of_ne hc]

theorem strip_ne_nil_of_lstrip {line : Line} {c : Char} {s : List Char}
    (h : lstrip line = c :: s) (hc : isSpace c = false) : strip line ≠ [] := by
  rw [strip_eq, h, rstrip_cons hc]
  exact List.cons_ne_nil _ _

/-- The part of a line before its bracket is the same kind of line. -/
theorem Starts.before {line : Line} (hline : Starts line) (hmem : '[' ∈ line) :
    strip line ≠ [] ∧ strip (before '[' line) ≠ [] ∧
      isHash (before '[' line) = isHash line ∧
      isSemicolon (before '[' line) = isSemicolon line := by
  obtain ⟨c, s, hl, -, hc, hb⟩ := hline.exists_cons hmem
  refine ⟨strip_ne_nil_of_lstrip hl hc, strip_ne_nil_of_lstrip hb hc, ?_, ?_⟩
  · rw [isHash, isHash, hb, hl]
    rfl
  · rw [isSemicolon, isSemicolon, hb, hl]
    rfl

theorem firstWord_before {line : Line} (hword : '[' ∉ firstWord line) :
    firstWord (before '[' line) = firstWord line := by
  rw [firstWord, lstrip_before rfl]
  rw [firstWord] at hword ⊢
  generalize lstrip line = s at hword ⊢
  have hstop : ∀ {c : Char}, isSpace c = true → ∀ s : List Char,
      ((c :: s).takeWhile fun c => !isSpace c) = [] := fun hc s =>
    List.takeWhile_cons_of_neg (by simp [hc])
  have hgo : ∀ {c : Char}, ¬isSpace c = true → ∀ s : List Char,
      ((c :: s).takeWhile fun c => !isSpace c) = c :: s.takeWhile fun c => !isSpace c := fun hc s =>
    List.takeWhile_cons_of_pos (by simpa using hc)
  induction s with
  | nil => rfl
  | cons c s ih =>
    by_cases hspace : isSpace c = true
    · rw [hstop hspace]
      by_cases hne : c = '['
      · rw [hne, before_cons_self]
        rfl
      · rw [before_cons_of_ne hne, hstop hspace]
    · rw [hgo hspace, List.mem_cons, not_or] at hword
      rw [before_cons_of_ne (Ne.symm hword.1), hgo hspace, hgo hspace, ih hword.2]

/-! ## The lines of the group -/

theorem readHosts_before {first : List Line} {line : Line} (hline : Starts line)
    (hmem : '[' ∈ line) (hsemicolons : NoSemicolons (first ++ [line]))
    (hword : isHash line = false → '[' ∉ firstWord line) :
    readHosts (first ++ [before '[' line]) = namedHosts (first ++ [line]) := by
  obtain ⟨hblank, hblank', hhash, -⟩ := hline.before hmem
  obtain ⟨hfirst, hlast⟩ := List.forall_mem_append.mp hsemicolons
  rw [readHosts_append, namedHosts_append, readHosts_of_noSemicolons hfirst]
  have hsemicolon : isSemicolon line = false := hlast line (List.mem_singleton_self line)
  refine congrArg _ ?_
  rw [readHosts, namedHosts, List.filter_singleton, List.filter_singleton, hhash, hsemicolon,
    bne_iff_ne.mpr hblank, bne_iff_ne.mpr hblank', Bool.or_false]
  cases hh : isHash line with
  | true => rfl
  | false =>
    change [host (before '[' line)] = [host line]
    rw [host, firstWord_before (hword hh), host]

theorem not_bracket_before (line : Line) : '[' ∉ before '[' line := by
  intro hmem
  have hne := List.mem_takeWhile_imp hmem
  rw [bne_self_eq_false] at hne
  cases hne

theorem cutAt_eq {lines : List Line} (hlines : ∀ line ∈ lines, '[' ∉ line) :
    cutAt '[' lines = lines := by
  have happend := cutAt_append hlines []
  rwa [List.append_nil, cutAt, List.append_nil] at happend

/-- The hosts up to the first bracket are those of the group just when it is read whole. -/
theorem whole_iff {lines : List Line} (hlines : ∀ line ∈ lines, Starts line) :
    (∀ name, name ∈ readHosts (cutAt '[' lines) ↔ name ∈ namedHosts lines) ↔ Whole lines := by
  constructor
  · intro h
    by_cases hnone : ∀ line ∈ lines, '[' ∉ line
    · rw [cutAt_eq hnone] at h
      exact .inl ⟨hnone, noSemicolons_of_subset fun name => (h name).mp⟩
    · push Not at hnone
      obtain ⟨first, line, rest, rfl, hfirst, hmem⟩ := exists_first hnone
      have hline := hlines line (by simp)
      obtain ⟨hblank, -, -, hsemicolon⟩ := hline.before hmem
      rw [cutAt_append hfirst, cutAt, if_pos hmem] at h
      have hsemicolons : NoSemicolons (first ++ [line]) := by
        have hread := noSemicolons_of_subset fun name => (h name).mp
        obtain ⟨hf, hl⟩ := List.forall_mem_append.mp hread
        refine List.forall_mem_append.mpr ⟨hf, fun l hmem => ?_⟩
        rw [List.mem_singleton.mp hmem, ← hsemicolon]
        exact hl _ (List.mem_singleton_self _)
      have hword : isHash line = false → '[' ∉ firstWord line := by
        intro hhash hin
        have hhost : host line ∈ namedHosts (first ++ line :: rest) :=
          mem_namedHosts.mpr ⟨line, by simp, hblank, hhash, hsemicolons line (by simp), rfl⟩
        refine not_bracket_mem_readHosts ?_ ((h _).mpr hhost) ?_
        · refine List.forall_mem_append.mpr ⟨hfirst, fun l hmem => ?_⟩
          rw [List.mem_singleton.mp hmem]
          exact not_bracket_before line
        · rwa [host, String.toList_ofList]
      refine .inr ⟨first, line, rest, rfl, hfirst, hmem, hsemicolons, hword, fun name hname => ?_⟩
      rw [← readHosts_before hline hmem hsemicolons hword]
      refine (h name).mpr ?_
      rw [List.append_cons first line rest, namedHosts_append]
      exact List.mem_append_right _ hname
  · rintro (⟨hnone, hsemicolons⟩ |
      ⟨first, line, rest, rfl, hfirst, hmem, hsemicolons, hword, hrest⟩)
    · intro name
      rw [cutAt_eq hnone, readHosts_of_noSemicolons hsemicolons]
    · intro name
      have hline := hlines line (by simp)
      rw [cutAt_append hfirst, cutAt, if_pos hmem, readHosts_before hline hmem hsemicolons hword,
        List.append_cons first line rest, namedHosts_append (first ++ [line]), List.mem_append]
      exact ⟨.inl, fun h => h.elim id fun h => hrest h⟩

theorem isHeader_bracket {line : Line} (h : isHeader line = true) :
    ∃ s, lstrip line = '[' :: s := by
  rw [isHeader] at h
  split at h
  · rename_i name hstrip
    cases hl : lstrip line with
    | nil =>
      rw [strip_eq, hl] at hstrip
      cases hstrip
    | cons c s =>
      have hc : isSpace c = false := head_lstrip line c (by rw [hl]; rfl)
      rw [strip_eq, hl, rstrip_cons hc] at hstrip
      exact ⟨s, by rw [(List.cons.inj hstrip).1]⟩
  · cases h

/-- Of a header nothing is read. -/
theorem strip_before_header {line : Line} (h : isHeader line = true) :
    '[' ∈ line ∧ strip (before '[' line) = [] := by
  obtain ⟨s, hs⟩ := isHeader_bracket h
  refine ⟨List.dropWhile_subset _ (show '[' ∈ lstrip line by rw [hs]; exact List.mem_cons_self), ?_⟩
  rw [strip_eq, lstrip_before rfl, hs, before_cons_self]
  rfl

/-- The next header ends what is read. -/
theorem readHosts_takeWhile (lines : List Line) : readHosts (cutAt '[' lines) =
    readHosts (cutAt '[' (lines.takeWhile fun line => !isHeader line)) := by
  induction lines with
  | nil => rfl
  | cons line lines ih =>
    by_cases hheader : isHeader line = true
    · obtain ⟨hmem, hblank⟩ := strip_before_header hheader
      have hcut : cutAt '[' (line :: lines) = [before '[' line] := if_pos hmem
      rw [List.takeWhile_cons_of_neg (by simp [hheader]), hcut, readHosts, List.filter_singleton,
        hblank]
      rfl
    · rw [List.takeWhile_cons_of_pos (by simpa using hheader), cutAt, cutAt]
      split
      · rfl
      · rw [← List.singleton_append, readHosts_append, ih, ← readHosts_append,
          List.singleton_append]

/-! ## The two readings -/

theorem marker_header {line : Line} (h : strip line = marker) :
    ∃ tail, after? marker line = some tail ∧ ∀ c ∈ tail, isSpace c = true := by
  obtain ⟨a, b, hline, ha, hb⟩ := exists_strip line
  rw [h] at hline
  have hout : '[' ∉ a := fun hmem => Bool.false_ne_true (ha '[' hmem)
  exact ⟨b, by rw [hline]; exact after?_append_marker hout _ b, hb⟩

theorem mention_append {first : List Line} (hfirst : ∀ line ∈ first, after? marker line = none)
    (lines : List Line) : mention marker (first ++ lines) = mention marker lines := by
  induction first with
  | nil => rfl
  | cons line first ih =>
    rw [List.forall_mem_cons] at hfirst
    rw [List.cons_append, mention, hfirst.1]
    exact ih hfirst.2

theorem groupLines_append {first : List Line} (hfirst : ∀ line ∈ first, after? marker line = none)
    (lines : List Line) : groupLines (first ++ lines) = groupLines lines := by
  induction first with
  | nil => rfl
  | cons line first ih =>
    rw [List.forall_mem_cons] at hfirst
    have hline : strip line ≠ marker := by
      intro h
      obtain ⟨tail, htail, -⟩ := marker_header h
      rw [hfirst.1] at htail
      cases htail
    rw [List.cons_append, groupLines, if_neg hline, ih hfirst.2]

theorem hostSet_some {hosts hosts' : List String} :
    hostSet (some hosts) = hostSet (some hosts') ↔ ∀ name, name ∈ hosts ↔ name ∈ hosts' := by
  rw [hostSet, hostSet, Option.map_some, Option.map_some, Option.some_inj, Set.ext_iff]
  rfl

/-- From the header on the group is read as far as it is read whole. -/
theorem header_iff {first rest : List Line} {line : Line}
    (hform : ∀ line ∈ rest, ['['].isPrefixOf (lstrip line) = true → isHeader line = true)
    (hfirst : ∀ line ∈ first, after? marker line = none) (hline : strip line = marker) :
    hostSet ((mention marker (first ++ line :: rest)).map fun lines =>
        readHosts (cutAt '[' lines)) =
      hostSet ((groupLines (first ++ line :: rest)).map namedHosts) ↔
      Whole (rest.takeWhile fun line => !isHeader line) := by
  obtain ⟨tail, htail, hspaces⟩ := marker_header hline
  have hbracket : '[' ∉ tail := fun hmem => Bool.false_ne_true (hspaces '[' hmem)
  have hblank : strip tail = [] := by
    have happend := lstrip_append hspaces []
    rw [List.append_nil] at happend
    rw [strip, happend]
    rfl
  have hread : readHosts (cutAt '[' (tail :: rest)) = readHosts (cutAt '[' rest) := by
    rw [cutAt, if_neg hbracket, ← List.singleton_append, readHosts_append, readHosts,
      List.filter_singleton, hblank]
    rfl
  have hstarts : ∀ line ∈ rest.takeWhile fun line => !isHeader line, Starts line := by
    intro line hmem
    by_contra hstart
    have hheader := hform line ((List.takeWhile_subset _) hmem) (Bool.not_eq_false _ ▸ hstart)
    simpa [hheader] using List.mem_takeWhile_imp hmem
  rw [mention_append hfirst, groupLines_append hfirst, mention, htail, groupLines, if_pos hline]
  dsimp only [Option.map_some]
  rw [hostSet_some, hread, readHosts_takeWhile]
  exact whole_iff hstarts

/-- From an earlier line on, what is read is to be the group. -/
theorem earlier_iff {first rest : List Line} {line tail : Line}
    (hfirst : ∀ line ∈ first, after? marker line = none) (hline : strip line ≠ marker)
    (htail : after? marker line = some tail) :
    hostSet ((mention marker (first ++ line :: rest)).map fun lines =>
        readHosts (cutAt '[' lines)) =
      hostSet ((groupLines (first ++ line :: rest)).map namedHosts) ↔
      ∃ group, groupLines rest = some group ∧ NoSemicolons (cutAt '[' (tail :: rest)) ∧
        ∀ name, name ∈ namedHosts (cutAt '[' (tail :: rest)) ↔ name ∈ namedHosts group := by
  rw [mention_append hfirst, groupLines_append hfirst, mention, htail, groupLines, if_neg hline]
  cases hgroup : groupLines rest with
  | none =>
    refine iff_of_false (Option.some_ne_none _) ?_
    rintro ⟨group, hsome, -⟩
    cases hsome
  | some group =>
    dsimp only [Option.map_some]
    rw [hostSet_some]
    constructor
    · intro h
      have hsemicolons := noSemicolons_of_subset fun name => (h name).mp
      refine ⟨group, rfl, hsemicolons, fun name => ?_⟩
      rw [← readHosts_of_noSemicolons hsemicolons]
      exact h name
    · rintro ⟨group', hsome, hsemicolons, h⟩ name
      rw [readHosts_of_noSemicolons hsemicolons, h name, Option.some.inj hsome]

/-- **The group is read as it is written** in these texts, and in no others. -/
theorem computeHosts_iff (text : List Char) (htext : IniForm text) :
    hostSet (computeHosts text) = hostSet (groupHosts text) ↔ AsWritten (splitLines text) := by
  rw [computeHosts_eq, groupHosts]
  rw [IniForm] at htext
  generalize splitLines text = lines at htext ⊢
  constructor
  · intro h
    by_cases hnone : ∀ line ∈ lines, after? marker line = none
    · exact .absent hnone
    · push Not at hnone
      obtain ⟨first, line, rest, rfl, hfirst, htail⟩ := exists_first hnone
      replace hfirst : ∀ line ∈ first, after? marker line = none := fun line hmem =>
        not_not.mp (hfirst line hmem)
      have hform : ∀ line ∈ rest, ['['].isPrefixOf (lstrip line) = true → isHeader line = true :=
        fun line hmem => htext line (by simp [hmem])
      by_cases hline : strip line = marker
      · exact .header hfirst hline ((header_iff hform hfirst hline).mp h)
      · obtain ⟨tail, htail⟩ := Option.ne_none_iff_exists'.mp htail
        obtain ⟨group, hgroup, hsemicolons, hhosts⟩ := (earlier_iff hfirst hline htail).mp h
        exact .earlier hfirst hline htail hgroup hsemicolons hhosts
  · intro h
    cases h with
    | absent hlines =>
      have hmention := mention_append hlines []
      have hgroup := groupLines_append hlines []
      rw [List.append_nil] at hmention hgroup
      rw [hmention, hgroup]
      rfl
    | header hfirst hline hrest =>
      exact (header_iff (fun line hmem => htext line (by simp [hmem])) hfirst hline).mpr hrest
    | earlier hfirst hline htail hgroup hsemicolons hhosts =>
      exact (earlier_iff hfirst hline htail).mpr ⟨_, hgroup, hsemicolons, hhosts⟩

def controlInventory : List Char :=
  "[control]\ncontroller-01\n\n[compute]\ncompute-01\n".toList

def bracketInventory : List Char :=
  "[compute]\ncompute-01 ansible_host=[2001:db8::1]\ncompute-02\n".toList

theorem control_inventory_read :
    IniForm controlInventory ∧
      hostSet (computeHosts controlInventory) = hostSet (groupHosts controlInventory) := by
  have hform : IniForm controlInventory := by
    rw [IniForm]
    decide
  refine ⟨hform, (computeHosts_iff controlInventory hform).mpr ?_⟩
  refine @AsWritten.header ["[control]".toList, "controller-01".toList, []] marker
    ["compute-01".toList] ?_ rfl (.inl ⟨?_, ?_⟩)
  · decide
  · decide
  · rw [NoSemicolons]
    decide

/-- An address in brackets ends the group: the host behind it is not read. -/
theorem bracket_ends_group :
    IniForm bracketInventory ∧ computeHosts bracketInventory = some ["compute-01"] ∧
      groupHosts bracketInventory = some ["compute-01", "compute-02"] ∧
      hostSet (computeHosts bracketInventory) ≠ hostSet (groupHosts bracketInventory) := by
  have hread : computeHosts bracketInventory = some ["compute-01"] := by decide
  have hwritten : groupHosts bracketInventory = some ["compute-01", "compute-02"] := by decide
  refine ⟨?_, hread, hwritten, fun h => ?_⟩
  · rw [IniForm]
    decide
  · rw [hread, hwritten, hostSet_some] at h
    have hmem := (h "compute-02").mpr (by simp)
    simp at hmem

end Inventory
end Declared
end KollaPowerOps
