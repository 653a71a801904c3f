import PathMeter.Address.V4
import PathMeter.Text.Hex

/-!
# IPv6 addresses

Nothing here is probed over IPv6; its addresses matter because a target may
turn out to have only such ones, and the complaint names the address.

The text form shortens the first of the longest runs of two or more zero
groups to `::` and writes hexadecimal without leading zeros.  An address that
embeds an IPv4 address after the group `ffff` shows it dotted.  Reading knows
both forms, with or without `::`, which stands for at least one group.
-/

namespace PathMeter

/-- An IPv6 address: eight groups of sixteen bits. -/
structure IPv6 where
  groups : List UInt16
  length_groups : groups.length = 8
  deriving DecidableEq, Repr

namespace IPv6

/-- Reads one group: one to four hexadecimal digits. -/
def group? (s : List Char) : Option UInt16 := do
  let ds ← s.mapM Text.hexValue?
  if ds ≠ [] ∧ ds.length ≤ 4 then
    pure (UInt16.ofNat (ds.foldl (fun v d => 16 * v + d) 0))
  else none

/-- The two groups that an embedded IPv4 address fills. -/
def ofV4 (ip : IPv4) : List UInt16 :=
  [UInt16.ofNat (256 * ip.a.toNat + ip.b.toNat), UInt16.ofNat (256 * ip.c.toNat + ip.d.toNat)]

/-- Reads groups with colons between them; the last may be a dotted IPv4
address. -/
def groups? : List (List Char) → Option (List UInt16)
  | [] => some []
  | [last] =>
    match IPv4.ofText? last with
    | some ip => some (ofV4 ip)
    | none => (group? last).map ([·])
  | part :: parts => do
    let g ← group? part
    let gs ← groups? parts
    pure (g :: gs)

/-- What stands before and after the first `::`, if there is one. -/
def splitGap : List Char → Option (List Char × List Char)
  | ':' :: ':' :: s => some ([], s)
  | c :: s => (splitGap s).map fun (before, after) => (c :: before, after)
  | [] => none

/-- The parts of a text between colons; an empty text has none. -/
def parts (s : List Char) : List (List Char) :=
  if s = [] then [] else Text.splitAt ':' s

/-- The address with these groups, if there are eight. -/
def ofGroups? (gs : List UInt16) : Option IPv6 :=
  if h : gs.length = 8 then some ⟨gs, h⟩ else none

/-- Reads an address. -/
def ofText? (s : List Char) : Option IPv6 :=
  match splitGap s with
  | none => do
    let gs ← groups? (parts s)
    ofGroups? gs
  | some (before, after) => do
    let front ← (parts before).mapM group?
    let back ← groups? (parts after)
    if front.length + back.length < 8 then
      ofGroups? (front ++ List.replicate (8 - front.length - back.length) 0 ++ back)
    else none

/-- The length of the run of zeros that a list starts with. -/
def zerosAhead (gs : List UInt16) : Nat :=
  (gs.takeWhile (· = 0)).length

/-- Where the first of the longest runs of zeros starts, and how long it is,
counting positions from `i`. -/
def longestRun : Nat → List UInt16 → Nat × Nat
  | _, [] => (0, 0)
  | i, g :: gs =>
    let here := zerosAhead (g :: gs)
    let (start, length) := longestRun (i + 1) gs
    if length ≤ here then (i, here) else (start, length)

/-- Groups in hexadecimal with colons between them. -/
def joined (gs : List UInt16) : List Char :=
  [':'].intercalate (gs.map fun g => Text.hexDigits g.toNat)

/-- The high and the low byte of a group, in decimal with a dot between. -/
def dotted (g : UInt16) : List Char :=
  Decimal.digits (g.toNat / 256) ++ '.' :: Decimal.digits (g.toNat % 256)

/-- The text of an address. -/
def text (ip : IPv6) : List Char :=
  match ip.groups with
  | [0, 0, 0, 0, 0, 0xFFFF, g, h] =>
    [':', ':', 'f', 'f', 'f', 'f', ':'] ++ dotted g ++ '.' :: dotted h
  | gs =>
    let (start, length) := longestRun 0 gs
    if 2 ≤ length then
      joined (gs.take start) ++ [':', ':'] ++ joined (gs.drop (start + length))
    else joined gs

end IPv6

/-- An address of either family. -/
inductive IPAddress where
  | v4 (ip : IPv4)
  | v6 (ip : IPv6)
  deriving DecidableEq, Repr

namespace IPAddress

/-- The text of an address. -/
def text : IPAddress → List Char
  | .v4 ip => ip.text
  | .v6 ip => ip.text

/-- Reads an address of either family. -/
def ofText? (s : List Char) : Option IPAddress :=
  match IPv4.ofText? s with
  | some ip => some (.v4 ip)
  | none => (IPv6.ofText? s).map .v6

/-- The IPv4 address, if it is one. -/
def v4? : IPAddress → Option IPv4
  | .v4 ip => some ip
  | .v6 _ => none

end IPAddress

end PathMeter
