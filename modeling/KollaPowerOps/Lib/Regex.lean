import Mathlib.Data.List.Basic

/-!
# Lib.Regex

Regular expressions as a backtracking matcher reads them: the matches at a place of a text, the
preferred one first. Repetition is of single characters only.

* `run`   : all matches at a place; `run_split` says that they take the text apart.
* `match?` and `search?` : the preferred match, at the start or at the first place that has one.
-/

namespace KollaPowerOps
namespace Regex

inductive Pattern where
  | empty
  | char (p : Char → Bool)
  /-- `p+`, as many as can be -/
  | many (p : Char → Bool)
  | seq (r s : Pattern)
  /-- `r?`, rather with `r` -/
  | opt (r : Pattern)
  | group (name : List Char) (r : Pattern)
  /-- `(?<=p)` -/
  | behind (p : Char → Bool)
  /-- `^` -/
  | start
  /-- `$`, at the end or before a last newline -/
  | stop

structure Match where
  read : List Char
  captures : List (List Char × List Char) := []
  rest : List Char
  deriving DecidableEq

def lit (c : Char) : Pattern := .char fun a => a = c

def seqs : List Pattern → Pattern
  | [] => .empty
  | r :: rs => .seq r (seqs rs)

/-- Some characters of a class, more before fewer. -/
def runMany (p : Char → Bool) : List Char → List Match
  | [] => []
  | c :: cs =>
    if p c then
      (runMany p cs).map (fun m => { m with read := c :: m.read }) ++ [{ read := [c], rest := cs }]
    else []

/-- The matches of a text, with the character before it. -/
def run : Pattern → Option Char → List Char → List Match
  | .empty, _, s => [{ read := [], rest := s }]
  | .char _, _, [] => []
  | .char p, _, c :: cs => if p c then [{ read := [c], rest := cs }] else []
  | .many p, _, s => runMany p s
  | .seq r r', b, s => (run r b s).flatMap fun m =>
    (run r' (m.read.getLast?.or b) m.rest).map fun m' =>
      { read := m.read ++ m'.read, captures := m.captures ++ m'.captures, rest := m'.rest }
  | .opt r, b, s => run r b s ++ [{ read := [], rest := s }]
  | .group name r, b, s =>
    (run r b s).map fun m => { m with captures := m.captures ++ [(name, m.read)] }
  | .behind p, b, s => if b.any p then [{ read := [], rest := s }] else []
  | .start, b, s => if b = none then [{ read := [], rest := s }] else []
  | .stop, _, s => if s = [] ∨ s = ['\n'] then [{ read := [], rest := s }] else []

section Equations

variable {p : Char → Bool} {c : Char} {r r' : Pattern} {b : Option Char} {s : List Char}

theorem runMany_cons : runMany p (c :: s) =
    if p c then
      (runMany p s).map (fun m => { m with read := c :: m.read }) ++ [{ read := [c], rest := s }]
    else [] := rfl

theorem run_empty : run .empty b s = [{ read := [], rest := s }] := rfl

theorem run_char_nil : run (.char p) b [] = [] := rfl

theorem run_char_cons :
    run (.char p) b (c :: s) = if p c then [{ read := [c], rest := s }] else [] := rfl

theorem run_many : run (.many p) b s = runMany p s := rfl

theorem run_seq : run (.seq r r') b s = (run r b s).flatMap fun m =>
    (run r' (m.read.getLast?.or b) m.rest).map fun m' =>
      { read := m.read ++ m'.read, captures := m.captures ++ m'.captures, rest := m'.rest } := rfl

theorem run_opt : run (.opt r) b s = run r b s ++ [{ read := [], rest := s }] := rfl

theorem run_group {name : List Char} : run (.group name r) b s =
    (run r b s).map fun m => { m with captures := m.captures ++ [(name, m.read)] } := rfl

theorem run_behind :
    run (.behind p) b s = if b.any p then [{ read := [], rest := s }] else [] := rfl

theorem run_start : run .start b s = if b = none then [{ read := [], rest := s }] else [] := rfl

theorem run_stop :
    run .stop b s = if s = [] ∨ s = ['\n'] then [{ read := [], rest := s }] else [] := rfl

end Equations

/-- `re.match` -/
def match? (r : Pattern) (s : List Char) : Option Match := (run r none s).head?

/-- `re.search` from a place on. -/
def searchFrom (r : Pattern) : Option Char → List Char → Option Match
  | b, [] => (run r b []).head?
  | b, c :: cs => (run r b (c :: cs)).head?.or (searchFrom r (some c) cs)

def search? (r : Pattern) (s : List Char) : Option Match := searchFrom r none s

/-- `re.sub(r, '', s)` from a place on, behind some characters that are to go. The pattern does not
match the empty text. -/
def removeFrom (r : Pattern) : Nat → Option Char → List Char → List Char
  | _, _, [] => []
  | n + 1, _, c :: cs => removeFrom r n (some c) cs
  | 0, b, c :: cs =>
    match (run r b (c :: cs)).head? with
    | some m => removeFrom r (m.read.length - 1) (some c) cs
    | none => c :: removeFrom r 0 (some c) cs

def remove (r : Pattern) (s : List Char) : List Char := removeFrom r 0 none s

/-! ## Groups -/

def Pattern.names : Pattern → List (List Char)
  | .seq r r' => r.names ++ r'.names
  | .opt r => r.names
  | .group name r => name :: r.names
  | _ => []

/-- `match.group(name)` -/
def Match.group (m : Match) (name : List Char) : Option (List Char) := m.captures.lookup name

/-- `match.groupdict()` -/
def Match.groupdict (r : Pattern) (m : Match) : List (List Char × Option (List Char)) :=
  r.names.map fun name => (name, m.group name)

/-! ## Matches -/

theorem mem_runMany {p : Char → Bool} {s : List Char} {m : Match} :
    m ∈ runMany p s ↔
      m.read ≠ [] ∧ (∀ c ∈ m.read, p c = true) ∧ m.captures = [] ∧ s = m.read ++ m.rest := by
  obtain ⟨read, captures, rest⟩ := m
  dsimp only
  induction s generalizing read with
  | nil =>
    refine iff_of_false nofun fun h => h.1 ?_
    exact (List.append_eq_nil_iff.mp h.2.2.2.symm).1
  | cons c cs ih =>
    cases read with
    | nil =>
      rw [runMany_cons]
      split
      · simp
      · simp
    | cons a read =>
      rw [runMany_cons]
      split
      · rename_i hc
        rw [List.mem_append, List.mem_map, List.mem_singleton]
        constructor
        · rintro (⟨m, hm, heq⟩ | heq)
          · obtain ⟨⟨rfl, rfl⟩, rfl, rfl⟩ := by simpa using heq
            obtain ⟨-, hread, hcaptures, hs⟩ := (ih m.read).mp hm
            refine ⟨List.cons_ne_nil _ _, List.forall_mem_cons.mpr ⟨hc, hread⟩, hcaptures, ?_⟩
            rw [hs, List.cons_append]
          · obtain ⟨⟨rfl, rfl⟩, rfl, rfl⟩ := by simpa using heq
            simpa using hc
        · rintro ⟨-, hread, rfl, hs⟩
          obtain ⟨rfl, htail⟩ := List.cons.inj hs
          by_cases hnil : read = []
          · subst hnil
            exact .inr (by simpa using htail.symm)
          · exact .inl ⟨⟨read, [], rest⟩, (ih read).mpr
              ⟨hnil, (List.forall_mem_cons.mp hread).2, rfl, htail⟩, rfl⟩
      · rename_i hc
        constructor
        · rintro hm
          cases hm
        · rintro ⟨-, hread, -, hs⟩
          obtain ⟨rfl, -⟩ := List.cons.inj hs
          exact absurd (hread c List.mem_cons_self) hc

theorem mem_run_char {p : Char → Bool} {b : Option Char} {s : List Char} {m : Match} :
    m ∈ run (.char p) b s ↔ ∃ c, p c = true ∧ s = c :: m.rest ∧ m = { read := [c], rest := m.rest } := by
  cases s with
  | nil => simp [run_char_nil]
  | cons c cs =>
    rw [run_char_cons]
    split
    · rename_i hc
      rw [List.mem_singleton]
      constructor
      · rintro rfl
        exact ⟨c, hc, rfl, rfl⟩
      · rintro ⟨_, -, hs, hm⟩
        obtain ⟨rfl, rfl⟩ := List.cons.inj hs
        exact hm
    · rename_i hc
      constructor
      · rintro hm
        cases hm
      · rintro ⟨_, hp, hs, -⟩
        obtain ⟨rfl, -⟩ := List.cons.inj hs
        exact absurd hp hc

theorem mem_run_seq {r r' : Pattern} {b : Option Char} {s : List Char} {m : Match} :
    m ∈ run (.seq r r') b s ↔
      ∃ m₁ ∈ run r b s, ∃ m₂ ∈ run r' (m₁.read.getLast?.or b) m₁.rest,
        m = { read := m₁.read ++ m₂.read, captures := m₁.captures ++ m₂.captures, rest := m₂.rest } := by
  simp only [run_seq, List.mem_flatMap, List.mem_map, eq_comm]

/-- A match takes the text apart. -/
theorem run_split {r : Pattern} {b : Option Char} {s : List Char} {m : Match} (h : m ∈ run r b s) :
    s = m.read ++ m.rest := by
  induction r generalizing b s m with
  | empty =>
    rw [run_empty, List.mem_singleton] at h
    rw [h, List.nil_append]
  | char p =>
    obtain ⟨c, -, hs, hm⟩ := mem_run_char.mp h
    rw [hm, hs]
    rfl
  | many p => exact (mem_runMany.mp h).2.2.2
  | seq r r' ih ih' =>
    obtain ⟨m₁, h₁, m₂, h₂, rfl⟩ := mem_run_seq.mp h
    rw [ih h₁, ih' h₂, List.append_assoc]
  | opt r ih =>
    rw [run_opt, List.mem_append, List.mem_singleton] at h
    rcases h with h | rfl
    · exact ih h
    · rfl
  | group name r ih =>
    rw [run_group, List.mem_map] at h
    obtain ⟨m', hm, rfl⟩ := h
    have hsplit := ih hm
    exact hsplit
  | behind p =>
    rw [run_behind] at h
    split at h
    · rw [List.mem_singleton.mp h, List.nil_append]
    · cases h
  | start =>
    rw [run_start] at h
    split at h
    · rw [List.mem_singleton.mp h, List.nil_append]
    · cases h
  | stop =>
    rw [run_stop] at h
    split at h
    · rw [List.mem_singleton.mp h, List.nil_append]
    · cases h

/-! ## The preferred match -/

/-- `p+` reads as far as it can. -/
theorem head?_runMany {p : Char → Bool} {w s : List Char} (hne : w ≠ []) (hw : ∀ c ∈ w, p c = true)
    (hs : ∀ c ∈ s.head?, p c = false) : (runMany p (w ++ s)).head? = some ⟨w, [], s⟩ := by
  induction w with
  | nil => exact absurd rfl hne
  | cons c w ih =>
    obtain ⟨hc, hw⟩ := List.forall_mem_cons.mp hw
    rw [List.cons_append, runMany_cons, if_pos hc]
    by_cases hnil : w = []
    · subst hnil
      have hnone : runMany p s = [] := by
        cases s with
        | nil => rfl
        | cons d s => rw [runMany_cons, hs d rfl, if_neg Bool.false_ne_true]
      rw [List.nil_append, hnone]
      rfl
    · rw [List.head?_append, List.head?_map, ih hnil hw]
      rfl

theorem head?_run_seq {r r' : Pattern} {b : Option Char} {s : List Char} {m m' : Match}
    (h : (run r b s).head? = some m)
    (h' : (run r' (m.read.getLast?.or b) m.rest).head? = some m') :
    (run (.seq r r') b s).head? = some
      { read := m.read ++ m'.read, captures := m.captures ++ m'.captures, rest := m'.rest } := by
  obtain ⟨l, hl⟩ := List.head?_eq_some_iff.mp h
  obtain ⟨l', hl'⟩ := List.head?_eq_some_iff.mp h'
  rw [run_seq, hl, List.flatMap_cons, hl']
  rfl

/-! ## Removing -/

theorem removeFrom_keep {r : Pattern} {b : Option Char} {c : Char} {cs : List Char}
    (h : run r b (c :: cs) = []) : removeFrom r 0 b (c :: cs) = c :: removeFrom r 0 (some c) cs := by
  rw [removeFrom, h]
  rfl

theorem removeFrom_all (r : Pattern) {n : Nat} (b : Option Char) {s : List Char}
    (h : s.length ≤ n) : removeFrom r n b s = [] := by
  induction s generalizing n b with
  | nil => rfl
  | cons c s ih =>
    rw [List.length_cons] at h
    obtain ⟨n, rfl⟩ : ∃ k, n = k + 1 := ⟨n - 1, by omega⟩
    exact ih (some c) (by omega)

/-! ## Ways to read a text -/

/-- A pattern can read a text that stands before another one, whatever comes before. -/
def Reads (r : Pattern) (w : List Char) (captures : List (List Char × List Char))
    (rest : List Char) : Prop :=
  ∀ b, ⟨w, captures, rest⟩ ∈ run r b (w ++ rest)

theorem Reads.seq {r r' : Pattern} {w w' rest : List Char} {c c' : List (List Char × List Char)}
    (h : Reads r w c (w' ++ rest)) (h' : Reads r' w' c' rest) :
    Reads (.seq r r') (w ++ w') (c ++ c') rest := by
  intro b
  refine mem_run_seq.mpr ⟨⟨w, c, w' ++ rest⟩, ?_, ⟨w', c', rest⟩, h' _, rfl⟩
  rw [List.append_assoc]
  exact h b

theorem Reads.lit (c : Char) (rest : List Char) : Reads (lit c) [c] [] rest := fun _ =>
  mem_run_char.mpr ⟨c, decide_eq_true rfl, rfl, rfl⟩

theorem Reads.many {p : Char → Bool} {w : List Char} (hne : w ≠ []) (hw : ∀ c ∈ w, p c = true)
    (rest : List Char) : Reads (.many p) w [] rest := fun _ =>
  mem_runMany.mpr ⟨hne, hw, rfl, rfl⟩

theorem Reads.group {r : Pattern} {w rest : List Char} {c : List (List Char × List Char)}
    (h : Reads r w c rest) (name : List Char) :
    Reads (.group name r) w (c ++ [(name, w)]) rest := fun b =>
  List.mem_map.mpr ⟨⟨w, c, rest⟩, h b, rfl⟩

theorem Reads.opt {r : Pattern} {w rest : List Char} {c : List (List Char × List Char)}
    (h : Reads r w c rest) : Reads (.opt r) w c rest := fun b => List.mem_append_left _ (h b)

theorem Reads.skip (r : Pattern) (rest : List Char) : Reads (.opt r) [] [] rest := fun _ =>
  List.mem_append_right _ (List.mem_singleton.mpr rfl)

theorem Reads.empty (rest : List Char) : Reads .empty [] [] rest := fun _ =>
  List.mem_singleton.mpr rfl

theorem Reads.stop : Reads .stop [] [] [] := fun _ => List.mem_singleton.mpr rfl

end Regex
end KollaPowerOps
