import Mathlib.Data.List.Basic

/-!
# Lib.Shlex

`shlex.split(s)`: a text split into words as a POSIX shell does it.

* `split` : the words; `none` where Python raises a `ValueError`, for a quotation that is not closed
  or a backslash at the end.
-/

namespace KollaPowerOps
namespace Shlex

def isSpace (c : Char) : Bool := c = ' ' ∨ c = '\t' ∨ c = '\r' ∨ c = '\n'

def isQuote (c : Char) : Bool := c = '\'' ∨ c = '"'

/-- The state of the lexer before a character. -/
inductive State where
  | between
  | word
  | quoted (quote : Char)
  /-- Behind a backslash, maybe within double quotes. -/
  | escaped (within : Option Char)
  deriving DecidableEq

/-- From a state and the word so far. -/
def splitFrom : State → List Char → List Char → Option (List (List Char))
  | .between, _, [] => some []
  | .word, token, [] => some [token]
  | .quoted _, _, [] => none
  | .escaped _, _, [] => none
  | .between, _, c :: cs =>
    if isSpace c then splitFrom .between [] cs
    else if c = '\\' then splitFrom (.escaped none) [] cs
    else if isQuote c then splitFrom (.quoted c) [] cs
    else splitFrom .word [c] cs
  | .word, token, c :: cs =>
    if isSpace c then (splitFrom .between [] cs).map (token :: ·)
    else if isQuote c then splitFrom (.quoted c) token cs
    else if c = '\\' then splitFrom (.escaped none) token cs
    else splitFrom .word (token ++ [c]) cs
  | .quoted quote, token, c :: cs =>
    if c = quote then splitFrom .word token cs
    else if c = '\\' ∧ quote = '"' then splitFrom (.escaped (some quote)) token cs
    else splitFrom (.quoted quote) (token ++ [c]) cs
  | .escaped none, token, c :: cs => splitFrom .word (token ++ [c]) cs
  -- within quotes a backslash stays, unless it escapes the quote or itself
  | .escaped (some quote), token, c :: cs =>
    if c ≠ '\\' ∧ c ≠ quote then splitFrom (.quoted quote) (token ++ ['\\', c]) cs
    else splitFrom (.quoted quote) (token ++ [c]) cs

def split (s : List Char) : Option (List (List Char)) := splitFrom .between [] s

example : split "kolla_start  --check \"a b\\\"c\" ''".toList =
    some ["kolla_start".toList, "--check".toList, "a b\"c".toList, []] := by decide

end Shlex
end KollaPowerOps
