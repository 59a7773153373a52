import Mathlib.Data.List.DropRight

/-!
# Lib.PyText

The text operations of Python `str` that configuration readers rest on, over lists of characters:
white space and line boundaries as Python defines them for Unicode, `strip`, `splitlines`, the
first item of `split()`, and `split(marker, 1)`.
-/

namespace KollaPowerOps
namespace PyText

/-- `str.isspace` for one character. -/
def isSpace (c : Char) : Bool :=
  let n := c.toNat
  (9 ≤ n && n ≤ 13) || (28 ≤ n && n ≤ 32) || n == 0x85 || n == 0xa0 || n == 0x1680 ||
    (0x2000 ≤ n && n ≤ 0x200a) || n == 0x2028 || n == 0x2029 || n == 0x202f || n == 0x205f ||
    n == 0x3000

/-- The line boundaries of `str.splitlines`. -/
def isLineBreak (c : Char) : Bool :=
  let n := c.toNat
  (10 ≤ n && n ≤ 13) || (28 ≤ n && n ≤ 30) || n == 0x85 || n == 0x2028 || n == 0x2029

/-- `str.lstrip()` -/
def lstrip (s : List Char) : List Char := s.dropWhile isSpace

/-- `str.rstrip()` -/
def rstrip (s : List Char) : List Char := s.rdropWhile isSpace

/-- `str.strip()` -/
def strip (s : List Char) : List Char := (lstrip s).rdropWhile isSpace

/-- `str.splitlines()`, with the characters of the current line so far in reverse. -/
def splitLinesFrom : List Char → List Char → List (List Char)
  | [], [] => []
  | [], line => [line.reverse]
  | '\r' :: '\n' :: cs, line => line.reverse :: splitLinesFrom cs []
  | c :: cs, line =>
    if isLineBreak c then line.reverse :: splitLinesFrom cs [] else splitLinesFrom cs (c :: line)

def splitLines (s : List Char) : List (List Char) := splitLinesFrom s []

/-- `line.split()[0]` of a line that is not blank. -/
def firstWord (s : List Char) : List Char := (lstrip s).takeWhile fun c => !isSpace c

/-- `text.split(marker, 1)[1]`: what follows the first occurrence of the marker. -/
def after? (marker : List Char) : List Char → Option (List Char)
  | [] => if marker.isEmpty then some [] else none
  | c :: cs =>
    if marker.isPrefixOf (c :: cs) then some ((c :: cs).drop marker.length) else after? marker cs

/-- `text.split(c, 1)[0]`: what precedes the first occurrence of the character. -/
def before (c : Char) (s : List Char) : List Char := s.takeWhile (· != c)

def isHex (c : Char) : Bool := c.isDigit || ('a' ≤ c && c ≤ 'f') || ('A' ≤ c && c ≤ 'F')

/-- Some groups of a colon and two hexadecimal digits, up to the end that `$` accepts. -/
def macGroups : Nat → List Char → Bool
  | 0, cs => cs == [] || cs == ['\n']
  | n + 1, ':' :: a :: b :: cs => isHex a && isHex b && macGroups n cs
  | _ + 1, _ => false

/-- `re.match` of `^(?:[0-9a-f]{2}:){5}[0-9a-f]{2}$`, ignoring case. -/
def macMatch : List Char → Bool
  | a :: b :: cs => isHex a && isHex b && macGroups 5 cs
  | _ => false

/-- A text without white space is its own strip. -/
theorem strip_of_no_space {s : List Char} (h : ∀ c ∈ s, isSpace c = false) : strip s = s := by
  have hl : lstrip s = s := by
    cases s with
    | nil => rfl
    | cons c cs => simp [lstrip, h c List.mem_cons_self]
  rw [strip, hl, List.rdropWhile_eq_self_iff]
  intro hne hlast
  rw [h _ (List.getLast_mem hne)] at hlast
  cases hlast

/-! ## White space at the ends -/

/-- No white space at either end. -/
structure Stripped (s : List Char) : Prop where
  head : ∀ c ∈ s.head?, isSpace c = false
  last : ∀ c ∈ s.getLast?, isSpace c = false

theorem strip_eq (s : List Char) : strip s = rstrip (lstrip s) := rfl

theorem lstrip_cons {c : Char} (hc : isSpace c = false) (s : List Char) : lstrip (c :: s) = c :: s := by
  rw [lstrip, List.dropWhile_cons_of_neg (by simp [hc])]

theorem lstrip_append {s : List Char} (hs : ∀ c ∈ s, isSpace c = true) (t : List Char) :
    lstrip (s ++ t) = lstrip t := by
  rw [lstrip, List.dropWhile_append_of_pos hs]
  rfl

theorem rstrip_append_cons {c : Char} (hc : isSpace c = false) (s t : List Char) :
    rstrip (s ++ c :: t) = s ++ c :: rstrip t := by
  rw [rstrip, rstrip, List.rdropWhile, List.rdropWhile, List.reverse_append, List.reverse_cons,
    List.append_assoc, List.dropWhile_append]
  split
  · rename_i hempty
    rw [List.isEmpty_iff.mp hempty]
    simp [hc]
  · simp

theorem rstrip_cons {c : Char} (hc : isSpace c = false) (t : List Char) :
    rstrip (c :: t) = c :: rstrip t := rstrip_append_cons hc [] t

theorem rstrip_spaces {s : List Char} (hs : ∀ c ∈ s, isSpace c = true) : rstrip s = [] :=
  List.rdropWhile_eq_nil_iff.mpr hs

theorem Stripped.lstrip {s : List Char} (hs : Stripped s) : lstrip s = s := by
  cases s with
  | nil => rfl
  | cons c s => exact lstrip_cons (hs.head c rfl) s

theorem Stripped.rstrip {s : List Char} (hs : Stripped s) : rstrip s = s := by
  refine List.rdropWhile_eq_self_iff.mpr fun hne => ?_
  rw [hs.last _ (List.getLast?_eq_some_getLast hne)]
  exact Bool.false_ne_true

/-- A text with a character that is not white space is not blank. -/
theorem strip_ne_nil {s : List Char} {c : Char} (hc : c ∈ s) (hspace : isSpace c = false) :
    strip s ≠ [] := by
  intro hblank
  have hall : ∀ x ∈ lstrip s, isSpace x = true := List.rdropWhile_eq_nil_iff.mp hblank
  rw [← List.takeWhile_append_dropWhile (p := isSpace) (l := s), List.mem_append] at hc
  rcases hc with hc | hc
  · rw [List.mem_takeWhile_imp hc] at hspace
    cases hspace
  · rw [hall c hc] at hspace
    cases hspace

theorem rstrip_append_spaces {s t : List Char} (hs : Stripped s) (ht : ∀ c ∈ t, isSpace c = true) :
    rstrip (s ++ t) = s := by
  rcases List.eq_nil_or_concat' s with rfl | ⟨s, c, rfl⟩
  · exact rstrip_spaces ht
  · rw [List.append_assoc]
    refine (rstrip_append_cons (hs.last c (by simp)) s t).trans ?_
    rw [rstrip_spaces ht]

theorem strip_append_spaces {s t : List Char} (hs : Stripped s) (ht : ∀ c ∈ t, isSpace c = true)
    (hne : s ≠ []) : strip (s ++ t) = s := by
  obtain ⟨c, s', rfl⟩ := List.exists_cons_of_ne_nil hne
  rw [strip_eq, List.cons_append, lstrip_cons (hs.head c rfl), ← List.cons_append]
  exact rstrip_append_spaces hs ht

/-- Some spaces before a text do not count, whichever end is stripped first. -/
theorem lstrip_rstrip_append {s t : List Char} (hs : ∀ c ∈ s, isSpace c = true) (ht : Stripped t) :
    lstrip (rstrip (s ++ t)) = t := by
  rcases List.eq_nil_or_concat' t with rfl | ⟨t, c, rfl⟩
  · rw [List.append_nil, rstrip_spaces hs]
    rfl
  · have hc := ht.last c (by simp)
    have hrstrip : rstrip (s ++ (t ++ [c])) = s ++ (t ++ [c]) := by
      rw [← List.append_assoc]
      exact rstrip_append_cons hc (s ++ t) []
    rw [hrstrip, lstrip_append hs, ht.lstrip]

theorem head_lstrip (s : List Char) : ∀ c ∈ (lstrip s).head?, isSpace c = false := by
  intro c hc
  have h := List.head?_dropWhile_not isSpace s
  rwa [show (List.dropWhile isSpace s).head? = some c from hc] at h

theorem last_rstrip (s : List Char) : ∀ c ∈ (rstrip s).getLast?, isSpace c = false := by
  intro c hc
  have hne : rstrip s ≠ [] := by
    rintro hnil
    simp [hnil] at hc
  have hlast : (rstrip s).getLast hne = c := by
    rwa [List.getLast?_eq_some_getLast hne, Option.mem_some] at hc
  rw [← hlast]
  exact Bool.eq_false_iff.mpr (List.rdropWhile_last_not isSpace s hne)

theorem stripped_rstrip {s : List Char} (hs : ∀ c ∈ s.head?, isSpace c = false) :
    Stripped (rstrip s) where
  head c hc := by
    obtain ⟨t, ht⟩ : rstrip s <+: s := List.rdropWhile_prefix isSpace s
    refine hs c ?_
    rw [← ht]
    cases hr : rstrip s with
    | nil => simp [hr] at hc
    | cons c' s' => simpa [hr] using hc
  last := last_rstrip s

theorem stripped_strip (s : List Char) : Stripped (strip s) := stripped_rstrip (head_lstrip s)

theorem stripped_lstrip_rstrip (s : List Char) : Stripped (lstrip (rstrip s)) where
  head := head_lstrip (rstrip s)
  last c hc := by
    obtain ⟨t, ht⟩ : lstrip (rstrip s) <:+ rstrip s := List.dropWhile_suffix isSpace
    refine last_rstrip s c ?_
    rw [← ht, List.getLast?_append, hc]
    rfl

theorem lstrip_rstrip_ne_nil {s : List Char} (hs : rstrip s ≠ []) : lstrip (rstrip s) ≠ [] := by
  intro hnil
  have hlast := last_rstrip s _ (List.getLast?_eq_some_getLast hs)
  rw [List.dropWhile_eq_nil_iff.mp hnil _ (List.getLast_mem hs)] at hlast
  exact Bool.noConfusion hlast

theorem firstWord_no_space (s : List Char) : ∀ c ∈ firstWord s, isSpace c = false := by
  intro c hc
  simpa using List.mem_takeWhile_imp hc

/-- The first word of a line is empty only if the line is blank. -/
theorem firstWord_ne_nil {s : List Char} (h : strip s ≠ []) : firstWord s ≠ [] := by
  intro hw
  apply h
  cases hl : lstrip s with
  | nil => simp [strip, hl]
  | cons c cs =>
    have hc : isSpace c = false := by
      have hl' : s.dropWhile isSpace = c :: cs := hl
      have hne : s.dropWhile isSpace ≠ [] := by simp [hl']
      simpa [hl'] using List.head_dropWhile_not isSpace hne
    simp [firstWord, hl, hc] at hw

/-- No piece of a split text has the separator. -/
theorem not_mem_of_mem_splitOn {c : Char} {s t : List Char} (h : t ∈ s.splitOn c) : c ∉ t := by
  induction s generalizing t with
  | nil =>
    rw [List.splitOn_nil, List.mem_singleton] at h
    rw [h]
    exact List.not_mem_nil
  | cons d s ih =>
    rw [List.splitOn_cons_eq_if_modifyHead] at h
    split at h
    · rcases List.mem_cons.mp h with rfl | h
      · exact List.not_mem_nil
      · exact ih h
    · rename_i hd
      rcases hsplit : s.splitOn c with _ | ⟨t', ts⟩
      · exact absurd hsplit (List.splitOn_ne_nil c s)
      · rw [hsplit] at h ih
        rcases List.mem_cons.mp h with rfl | h
        · rw [List.mem_cons, not_or]
          exact ⟨fun heq => hd (by simp [heq]), ih List.mem_cons_self⟩
        · exact ih (List.mem_cons_of_mem _ h)

end PyText
end KollaPowerOps
