import Federation.Unicode.Direction
import Federation.Unicode.HostMapping
import Federation.Unicode.Joining
import Federation.Unicode.Normalization
import Federation.Url.Punycode

/-!
# Domain names

A domain name is a list of labels between dots. Its characters are percent-decoded, mapped to the
form in which names are compared, and normalized; a label that starts with `xn--` stands for the
text that its Punycode writes. Every label then has to be one that can be looked up.
-/

namespace Federation.Url

/-! ## Percent-encoding -/

/-- The bytes of a character in UTF-8. -/
def bytesOf (c : Char) : List UInt8 :=
  (String.singleton c).toUTF8.data.toList

/-- The bytes that a text stands for, of which some are percent-encoded. -/
def percentDecode : List Char → List UInt8
  | '%' :: a :: b :: rest =>
    match Text.hexValue? a, Text.hexValue? b with
    | some x, some y => .ofNat (16 * x + y) :: percentDecode rest
    | _, _ => bytesOf '%' ++ percentDecode (a :: b :: rest)
  | c :: rest => bytesOf c ++ percentDecode rest
  | [] => []

/-- The characters that a text stands for; bytes that are not UTF-8 are refused. -/
def percentDecode? (cs : List Char) : Option (List Char) :=
  (String.fromUTF8? ⟨(percentDecode cs).toArray⟩).map String.toList

/-! ## Characters -/

/-- The ASCII characters that a domain name cannot hold. -/
def isForbiddenInDomain (c : Char) : Bool :=
  c.toNat ≤ 0x20 || c.toNat == 0x7F || "#%/:<>?@[\\]^|".toList.contains c

/-- The characters of a domain name in the form in which names are compared. -/
def mapDomain? (cs : List Char) : Option (List Char) := do
  let mapped ← cs.mapM Unicode.mapInHost?
  return Unicode.normalize mapped.flatten

/-! ## Labels -/

/-- The text that a label stands for. Punycode is for texts that hold more than ASCII and that the
mapping and normalization leave alone. -/
def decodeLabel? : List Char → Option (List Char)
  | 'x' :: 'n' :: '-' :: '-' :: code => do
    let text ← Punycode.decode? code
    guard (text.any fun c => 0x80 ≤ c.toNat)
    guard (text.all Unicode.isFixedInHost && Unicode.normalize text == text)
    return text
  | label => some label

/-- The label does not start with a mark, and its joiners are where they may be. -/
def isLabel (label : List Char) : Bool :=
  !label.head?.any Unicode.isMark && Unicode.joinersFit [] label

/-- If a part of a domain name is written from right to left, each label that is not empty has to
satisfy the bidirectional rule. -/
def haveDirections (labels : List (List Char)) : Bool :=
  !labels.any Unicode.hasLeftwardPart ||
    labels.all fun label => label.isEmpty || Unicode.hasOneDirection label

/-- The labels of a domain name. -/
def domainLabels? (cs : List Char) : Option (List (List Char)) := do
  let decoded ← percentDecode? cs
  let name ← mapDomain? decoded
  guard (!name.isEmpty && !name.any isForbiddenInDomain)
  let labels ← (name.splitOnP (· == '.')).mapM decodeLabel?
  guard (labels.all isLabel && haveDirections labels)
  return labels

end Federation.Url
