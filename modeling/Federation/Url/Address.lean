import Federation.Number.Decimal
import Federation.Text.Character

/-!
# Network addresses

A host can be given by its address: four bytes, or eight groups of sixteen bits in brackets. A
number of a four byte address can be written in three bases and can stand for several bytes.
-/

namespace Federation.Url

/-! ## Addresses of four bytes -/

/-- The number that digits of a base write. -/
def readBase? (base : Nat) (ds : List Char) : Option Nat :=
  ds.foldlM (fun n c => do
    let d ← Text.hexValue? c
    if d < base then some (base * n + d) else none) 0

/-- A number in a host: decimal, octal after `0`, hexadecimal after `0x`. -/
def hostNumber? : List Char → Option Nat
  | [] => none
  | '0' :: 'x' :: ds => readBase? 16 ds
  | '0' :: 'X' :: ds => readBase? 16 ds
  | '0' :: d :: ds => readBase? 8 (d :: ds)
  | ds => readBase? 10 ds

/-- A host whose last label is a number has to be an address of four bytes. -/
def isAddressLike (labels : List (List Char)) : Bool :=
  match labels.getLast? with
  | some label => !label.isEmpty && (label.all Char.isDigit || (hostNumber? label).isSome)
  | none => false

/-- The labels are an address: at most four numbers, all but the last below 256, of which the last
stands for the bytes that are left. -/
def isAddress (labels : List (List Char)) : Bool :=
  match labels.mapM hostNumber? with
  | none => false
  | some numbers =>
    numbers.length ≤ 4 && numbers.dropLast.all (· < 256) &&
      numbers.getLast?.all (· < Nat.pow 256 (5 - numbers.length))

/-! ## Addresses of eight groups -/

/-- A group is up to four hexadecimal digits. -/
def isGroup (cs : List Char) : Bool :=
  !cs.isEmpty && cs.length ≤ 4 && cs.all fun c => (Text.hexValue? c).isSome

/-- A byte in decimal digits, without leading zeros. -/
def isByte (cs : List Char) : Bool :=
  !cs.isEmpty && cs.all Char.isDigit && (cs.head? != some '0' || cs.length == 1) &&
    Number.ofDigits cs < 256

/-- Two groups can be written as four bytes between dots. -/
def isGroupPair (cs : List Char) : Bool :=
  let bytes := cs.splitOnP (· == '.')
  bytes.length == 4 && bytes.all isByte

/-- The number of groups between colons. The last two can be written as bytes if the address ends
with them. -/
def countGroups? (atEnd : Bool) (cs : List Char) : Option Nat :=
  if cs.isEmpty then some 0
  else
    let parts := cs.splitOnP (· == ':')
    if parts.all isGroup then some parts.length
    else if atEnd && parts.dropLast.all isGroup && parts.getLast?.any isGroupPair then
      some (parts.length + 1)
    else none

/-- The parts of a text before and after the first two colons in a row. -/
def splitGap? : List Char → Option (List Char × List Char)
  | ':' :: ':' :: rest => some ([], rest)
  | c :: rest => (splitGap? rest).map fun (before, after) => (c :: before, after)
  | [] => none

theorem eq_of_splitGap? {cs before after : List Char} (h : splitGap? cs = some (before, after)) :
    cs = before ++ ':' :: ':' :: after := by
  fun_induction splitGap? cs generalizing before with
  | case1 rest =>
    obtain ⟨rfl, rfl⟩ := Prod.mk.inj (Option.some.inj h)
    rfl
  | case2 c rest _ ih =>
    obtain ⟨⟨front, back⟩, found, same⟩ := Option.map_eq_some_iff.1 h
    obtain ⟨rfl, rfl⟩ := Prod.mk.inj same
    rw [ih found, List.cons_append]
  | case3 => simp at h

/-- Two colons stand for groups of zeros, at least one, which fill the address up. -/
def isLongAddress (cs : List Char) : Bool :=
  match splitGap? cs with
  | some (before, after) =>
    match countGroups? false before, countGroups? true after with
    | some m, some n => m + n < 8
    | _, _ => false
  | none => countGroups? true cs == some 8

end Federation.Url
