import Mathlib.Algebra.GroupWithZero.Nat

/-! `ipaddress.ip_address`, as far as `--host` and an issuer's host name are
asked whether they are loopback. -/
namespace CodeCalc.Http

inductive Address where
  | v4 (value : Nat)
  | v6 (value : Nat)
  deriving DecidableEq, Repr

namespace Address

def isHexDigit (char : Char) : Bool :=
  char.isDigit || ('a' ≤ char && char ≤ 'f') || ('A' ≤ char && char ≤ 'F')

def hexValue (char : Char) : Nat :=
  if char.isDigit then char.toNat - 48 else (char.toNat - 55) % 32

/-- `_parse_octet`: leading zeros are not permitted. -/
def parseOctet (text : List Char) : Option Nat :=
  if text = [] ∨ ¬text.all Char.isDigit ∨ 3 < text.length then none
  else if text ≠ ['0'] ∧ text.head? = some '0' then none
  else
    let value := text.foldl (fun value char => 10 * value + (char.toNat - 48)) 0
    if value ≤ 255 then some value else none

/-- `IPv4Address(text)`. -/
def parse4 (text : List Char) : Option Nat :=
  match (text.splitOn '.').map parseOctet with
  | [some a, some b, some c, some d] => some (((a * 256 + b) * 256 + c) * 256 + d)
  | _ => none

def parseHextet (text : List Char) : Option Nat :=
  if text = [] ∨ ¬text.all isHexDigit ∨ 4 < text.length then none
  else some (text.foldl (fun value char => 16 * value + hexValue char) 0)

def hextets (parts : List (List Char)) (value : Nat) : Option Nat :=
  (parts.mapM parseHextet).map fun values => values.foldl (fun value hextet => 65536 * value + hextet) value

/-- A dotted quad at the end stands for two hextets. -/
def embedded (parts : List (List Char)) : Option (List (List Char)) :=
  match parts.getLast? with
  | none => none
  | some last =>
      if '.' ∈ last then
        (parse4 last).map fun value => parts.dropLast ++
          [Nat.toDigits 16 (value / 65536), Nat.toDigits 16 (value % 65536)]
      else some parts

/-- Where `::` leaves hextets out. -/
def skips (parts : List (List Char)) : List Nat :=
  (List.range parts.length).filter fun index =>
    0 < index && index + 1 < parts.length && parts[index]? == some []

/-- `IPv6Address(text)`, without a scope. -/
def parse6 (text : List Char) : Option Nat :=
  let split := text.splitOn ':'
  if split.length < 3 then none
  else match embedded split with
    | none => none
    | some parts =>
        if 9 < parts.length then none
        else match skips parts with
          | [] => if parts.length = 8 then hextets parts 0 else none
          | [index] =>
              let high := parts.take index
              let low := parts.drop (index + 1)
              -- a colon at an end is half of the `::`
              let high := if high = [[]] then [] else high
              let low := if low = [[]] then [] else low
              if 8 ≤ high.length + low.length then none
              else (hextets high 0).bind fun value =>
                hextets low (value * 65536 ^ (8 - (high.length + low.length)))
          | _ => none

/-- `ip_address(text)`; `none` is its `ValueError`. -/
def parse (text : String) : Option Address :=
  match parse4 text.toList with
  | some value => some (v4 value)
  | none =>
      if '/' ∈ text.toList then none
      else match text.toList.splitOn '%' with
        | [address] => (parse6 address).map v6
        | [address, scope] => if scope = [] then none else (parse6 address).map v6
        | _ => none

/-- `is_loopback`; newer versions of Python look into an address that maps an
IPv4 one. -/
def isLoopback (mapped : Bool) : Address → Bool
  | v4 value => value / 2 ^ 24 = 127
  | v6 value =>
      if mapped && value / 2 ^ 32 = 0xFFFF then value % 2 ^ 32 / 2 ^ 24 = 127 else value = 1

example : (["127.0.0.2", "::1", "0.0.0.0", "127.0.0.01", ":1::2", "::ffff:127.0.0.1"].map fun text =>
    (parse text).map (isLoopback false)) =
      [some true, some true, some false, none, none, some false] := by
  decide

end Address

end CodeCalc.Http
