import Federation.Url.Authority

/-!
# Paths

The path of a URL is a list of segments between slashes. It is resolved: segments that stand for the
place they are in or for the place above are gone, and characters that a path cannot hold are
percent-encoded.
-/

namespace Federation.Url

/-! ## Characters -/

/-- The characters that a path holds only percent-encoded. -/
def isEncodedInPath (c : Char) : Bool :=
  c.toNat ≤ 0x20 || 0x7F ≤ c.toNat || "\"#<>?^`\x7b\x7d".toList.contains c

/-- A byte, percent-encoded. -/
def encodeByte (b : UInt8) : List Char :=
  ['%', Text.hexDigit (b.toNat / 16), Text.hexDigit (b.toNat % 16)]

theorem percentDecode_encodeByte (b : UInt8) (rest : List Char) :
    percentDecode (encodeByte b ++ rest) = b :: percentDecode rest := by
  have small : b.toNat < 256 := b.toNat_lt
  have high : Text.hexValue? (Text.hexDigit (b.toNat / 16)) = some (b.toNat / 16) :=
    Text.hexValue?_hexDigit (by omega)
  have low : Text.hexValue? (Text.hexDigit (b.toNat % 16)) = some (b.toNat % 16) :=
    Text.hexValue?_hexDigit (by omega)
  rw [encodeByte, List.cons_append, List.cons_append, List.cons_append, List.nil_append,
    percentDecode, high, low]
  simp only [Nat.div_add_mod, UInt8.ofNat_toNat]

/-- A path segment with its characters percent-encoded where they have to be. -/
def encodeSegment (segment : List Char) : String :=
  String.ofList (segment.flatMap fun c =>
    if isEncodedInPath c then (bytesOf c).flatMap encodeByte else [c])

/-! ## Segments -/

/-- A segment that stands for the place it is in. -/
def isSingleDot (segment : List Char) : Bool :=
  [".", "%2e"].contains (String.ofList (segment.map Char.toLower))

/-- A segment that stands for the place above. -/
def isDoubleDot (segment : List Char) : Bool :=
  ["..", ".%2e", "%2e.", "%2e%2e"].contains (String.ofList (segment.map Char.toLower))

/-- A segment that nothing lies above: a drive, perhaps with more after a backslash. -/
def isTop (segment : List Char) : Bool :=
  isDrive (segment.take 2) && (segment.drop 2).head?.all (· == '\\')

/-- A drive at the start of the path of a file is a segment of its own, written with a colon. -/
def separateDrive : List Char → List (List Char)
  | [letter, '|'] => if letter.isAlpha then [[letter, ':']] else [[letter, '|']]
  | letter :: ':' :: c :: rest =>
    if letter.isAlpha then [[letter, ':'], c :: rest] else [letter :: ':' :: c :: rest]
  | segment => [segment]

theorem length_flatten_separateDrive (segment : List Char) :
    (separateDrive segment).flatten.length = segment.length := by
  fun_cases separateDrive segment <;> simp

/-- Adds a segment to a resolved path. -/
def addSegment (ofFile : Bool) (path : List (List Char)) (segment : List Char) :
    List (List Char) :=
  if isDoubleDot segment then
    if path.getLast?.any isTop then path else path.dropLast
  else if isSingleDot segment then path
  else if ofFile && path.isEmpty then separateDrive segment
  else path ++ [segment]

/-- The non-empty segments of a path. -/
def segmentsOf (isWeb ofFile : Bool) (path : List Char) : List String :=
  let path := path.takeWhile fun c => !endsPath c
  let path := if path.head?.any (isSlash isWeb) then path.tail else path
  let segments := (path.splitOnP (isSlash isWeb)).foldl (addSegment ofFile) []
  (segments.filter (!·.isEmpty)).map encodeSegment

end Federation.Url
