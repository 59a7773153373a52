import KollaPowerOps.Lib.PyNumber

/-!
# Lib.IpAddress

Internet addresses as the `ipaddress` module of Python reads and writes them.

* `ipv4?` and `ipv6?` : the address that a text denotes.
* `ipAddress?`        : `ipaddress.ip_address`; `none` where Python raises a `ValueError`.
* `Address.text`      : `format(ip)`.
-/

namespace KollaPowerOps
namespace Ip

open PyNumber

/-- A scope is what follows a `%`. -/
structure Ipv6 where
  number : Nat
  scopeId : Option (List Char) := none
  deriving DecidableEq

inductive Address where
  | ipv4 (number : Nat)
  | ipv6 (address : Ipv6)
  deriving DecidableEq

/-! ## Reading -/

def octet? (s : List Char) : Option Nat :=
  if IsDigits s ∧ s.length ≤ 3 ∧ Canonical s ∧ digitsValue s ≤ 255 then some (digitsValue s) else none

/-- The number whose places are given, from the highest one. -/
def places (base : Nat) (l : List Nat) : Nat := l.foldl (fun n d => n * base + d) 0

def ipv4? (s : List Char) : Option Nat :=
  let octets := s.splitOn '.'
  if octets.length = 4 then (octets.mapM octet?).map (places 256) else none

def hexValue (c : Char) : Nat :=
  if c.isDigit then c.toNat - 48 else c.toLower.toNat - 87

def hextet? (s : List Char) : Option Nat :=
  if s ≠ [] ∧ s.all PyText.isHex = true ∧ s.length ≤ 4 then
    some (places 16 (s.map hexValue))
  else none

/-- `'%x' % n` -/
def hex (n : Nat) : List Char := Nat.toDigits 16 n

/-- An IPv4 address in the last part stands for two parts. -/
def expandLast (parts : List (List Char)) : Option (List (List Char)) :=
  match parts.getLast? with
  | none => none
  | some last =>
    if '.' ∈ last then
      (ipv4? last).map fun n => parts.dropLast ++ [hex (n / 65536), hex (n % 65536)]
    else some parts

/-- The inner parts that are empty. -/
def skips (parts : List (List Char)) : List Nat :=
  (List.range parts.length).filter fun i => 0 < i ∧ i + 1 < parts.length ∧ parts[i]? = some []

/-- An empty part at the end of a side: the `::` has to be there, with nothing between. -/
def trimSide (side : List (List Char)) (outer : Option (List Char)) : Option (List (List Char)) :=
  if outer = some [] then (if side.length = 1 then some [] else none) else some side

/-- The hextets, with zeros for what `::` leaves out. -/
def hextets? (parts : List (List Char)) : Option (List Nat) :=
  match skips parts with
  | [] => if parts.length = 8 then parts.mapM hextet? else none
  | [skip] =>
    match trimSide (parts.take skip) parts.head?,
        trimSide (parts.drop (skip + 1)) parts.getLast? with
    | some high, some low =>
      if high.length + low.length < 8 then
        match high.mapM hextet?, low.mapM hextet? with
        | some high, some low =>
          some (high ++ List.replicate (8 - (high.length + low.length)) 0 ++ low)
        | _, _ => none
      else none
    | _, _ => none
  | _ => none

def ipv6Number? (s : List Char) : Option Nat :=
  let parts := s.splitOn ':'
  if parts.length < 3 then none
  else
    match expandLast parts with
    | none => none
    | some parts => if 9 < parts.length then none else (hextets? parts).map (places 65536)

def ipv6? (s : List Char) : Option Ipv6 :=
  if '/' ∈ s then none
  else
    match s.splitOn '%' with
    | [address] => (ipv6Number? address).map fun n => { number := n }
    | [address, scope] =>
      if scope = [] then none else (ipv6Number? address).map fun n => { number := n, scopeId := some scope }
    | _ => none

def ipAddress? (s : List Char) : Option Address :=
  ((ipv4? s).map .ipv4).or ((ipv6? s).map .ipv6)

/-! ## Writing -/

/-- The places of a number, from the highest one. -/
def digits (base count n : Nat) : List Nat :=
  (List.range count).map fun i => n / base ^ (count - 1 - i) % base

def zeroRun (l : List Nat) (i : Nat) : Nat := ((l.drop i).takeWhile fun d => d = 0).length

/-- Where the longest run of zeros begins; the first one of them. -/
def longestRun (l : List Nat) : Nat :=
  (List.range l.length).foldl (fun best i => if zeroRun l best < zeroRun l i then i else best) 0

/-- `_compress_hextets` -/
def compress (l : List Nat) : List (List Char) :=
  let start := longestRun l
  let stop := start + zeroRun l start
  if 1 < zeroRun l start then
    (if start = 0 then [[]] else []) ++ (l.take start).map hex ++ [[]] ++ (l.drop stop).map hex ++
      (if stop = l.length then [[]] else [])
  else l.map hex

def Ipv6.text (a : Ipv6) : List Char :=
  [':'].intercalate (compress (digits 65536 8 a.number)) ++
    match a.scopeId with
    | none => []
    | some scope => '%' :: scope

def Address.text : Address → List Char
  | .ipv4 n => ['.'].intercalate ((digits 256 4 n).map fun d => decimal d)
  | .ipv6 a => a.text

example : (ipAddress? "FD00:0::1".toList).map Address.text = some "fd00::1".toList := by decide

end Ip
end KollaPowerOps
