import Federation.Url.Path

/-!
# URLs

An absolute URL has a scheme, perhaps an authority, and a path, which is all that matters here. A
text that is no such URL has no path.
-/

namespace Federation.Url

/-! ## Characters -/

/-- The characters that are cut off both ends of a URL. -/
def isTrimmed (c : Char) : Bool :=
  c.toNat ≤ 0x20

/-- The characters that are left out of a URL wherever they stand. -/
def isDropped (c : Char) : Bool :=
  c == '\t' || c == '\n' || c == '\r'

/-- The text of a URL without the characters that do not belong to it. -/
def cleaned (text : String) : List Char :=
  let trimmed := ((text.toList.dropWhile isTrimmed).reverse.dropWhile isTrimmed).reverse
  trimmed.filter fun c => !isDropped c

/-! ## Schemes -/

/-- A scheme starts with a letter and goes on with letters, digits and three marks. -/
def isSchemePart (c : Char) : Bool :=
  c.isAlphanum || c == '+' || c == '-' || c == '.'

/-- The scheme and what follows its colon. -/
def splitScheme? (cs : List Char) : Option (String × List Char) :=
  match cs with
  | [] => none
  | first :: _ =>
    match cs.dropWhile isSchemePart with
    | ':' :: rest =>
      if first.isAlpha then
        some (String.ofList ((cs.takeWhile isSchemePart).map Char.toLower), rest)
      else none
    | _ => none

/-- The schemes whose URLs always have an authority, `file` apart. -/
def isWebScheme (scheme : String) : Bool :=
  ["http", "https", "ws", "wss", "ftp"].contains scheme

/-! ## Path segments -/

/-- The resolved, non-empty path segments of an absolute URL that has a hierarchical path. -/
def pathSegments? (text : String) : Option (List String) := do
  let (scheme, rest) ← splitScheme? (cleaned text)
  if isWebScheme scheme then
    let path ← afterAuthority? true (rest.dropWhile (isSlash true))
    return segmentsOf true false path
  else if scheme == "file" then
    let path ←
      if (rest.takeWhile (isSlash true)).length < 2 then some rest else afterFileHost? (rest.drop 2)
    return segmentsOf true true path
  else
    match rest with
    | '/' :: '/' :: rest =>
      let path ← afterAuthority? false rest
      return segmentsOf false false path
    | '/' :: _ => return segmentsOf false false rest
    | _ => none

end Federation.Url
