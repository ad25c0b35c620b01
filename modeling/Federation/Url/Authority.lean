import Federation.Url.Address
import Federation.Url.Domain

/-!
# Authorities

The authority of a URL names a host, perhaps after user data and before a number that tells where to
connect. What follows the authority is the path.
-/

namespace Federation.Url

/-! ## Ends -/

/-- The path ends at a query or fragment. -/
def endsPath (c : Char) : Bool :=
  c == '?' || c == '#'

/-- Both slashes separate segments of web paths; others know only one. -/
def isSlash (isWeb : Bool) (c : Char) : Bool :=
  c == '/' || (isWeb && c == '\\')

/-- The authority ends at the path. -/
def endsAuthority (isWeb : Bool) (c : Char) : Bool :=
  isSlash isWeb c || endsPath c

/-! ## Hosts -/

/-- The host is an address or a domain name. -/
def isWebHost (cs : List Char) : Bool :=
  match cs with
  | '[' :: rest => rest.getLast? == some ']' && isLongAddress rest.dropLast
  | cs =>
    match domainLabels? cs with
    | none => false
    | some labels =>
      let labels := if labels.getLast? == some [] then labels.dropLast else labels
      !isAddressLike labels || isAddress labels

/-- The characters that no host can hold. -/
def isForbiddenInHost (c : Char) : Bool :=
  "\x00\t\n\r #/:<>?@[\\]^|".toList.contains c

/-- The host of a URL with a scheme of its own is an address in brackets or any text. -/
def isOpaqueHost (cs : List Char) : Bool :=
  match cs with
  | '[' :: _ => isWebHost cs
  | cs => !cs.any isForbiddenInHost

/-! ## Authorities -/

/-- A text before and after the first colon that is not between brackets; the colon stays. -/
def spanHost (inBrackets : Bool) : List Char → List Char × List Char
  | [] => ([], [])
  | c :: rest =>
    if c == ':' && !inBrackets then ([], c :: rest)
    else
      let (host, rest) := spanHost (c == '[' || (inBrackets && c != ']')) rest
      (c :: host, rest)

theorem spanHost_append (inBrackets : Bool) (cs : List Char) :
    (spanHost inBrackets cs).1 ++ (spanHost inBrackets cs).2 = cs := by
  induction cs generalizing inBrackets with
  | nil => rfl
  | cons c rest ih =>
    rw [spanHost]
    split
    · rfl
    · rw [List.cons_append, ih]

/-- What follows the colon and number after a host. The number is of 16 bits and can be left out; a
backslash ends it, and belongs to the path. -/
def afterEndpoint? : List Char → Option (List Char)
  | ':' :: rest =>
    let (ds, rest) := Number.spanDigits rest
    if Number.ofDigits ds < 65536 && rest.head?.all (· == '\\') then some rest else none
  | rest => some rest

/-- The user data of an authority, with the sign that ends it, and what follows. -/
def spanUser (cs : List Char) : List Char × List Char :=
  ((cs.reverse.dropWhile (· != '@')).reverse, (cs.reverse.takeWhile (· != '@')).reverse)

theorem spanUser_append (cs : List Char) : (spanUser cs).1 ++ (spanUser cs).2 = cs := by
  rw [spanUser, ← List.reverse_append, List.takeWhile_append_dropWhile, List.reverse_reverse]

/-- User data that says nothing. -/
def isEmptyUser (user : List Char) : Bool :=
  user == [] || user == ['@'] || user == [':', '@']

/-- The path after a valid authority. A web URL has a host; another can do without, but then it has
no user data and no number either. -/
def afterAuthority? (isWeb : Bool) (cs : List Char) : Option (List Char) := do
  let authority := cs.takeWhile fun c => !endsAuthority isWeb c
  let (user, location) := spanUser authority
  let (host, endpoint) := spanHost false location
  let rest ← afterEndpoint? endpoint
  if isWeb then guard (isWebHost host)
  else
    guard (isOpaqueHost host)
    guard (!host.isEmpty || (endpoint.isEmpty && isEmptyUser user && authority != ['@']))
  return rest ++ cs.drop authority.length

/-! ## Drives -/

/-- A drive is a letter and a mark after it. -/
def isDrive : List Char → Bool
  | [letter, sign] => letter.isAlpha && (sign == ':' || sign == '|')
  | _ => false

/-- The path of a file after a valid host, which can be left out. What looks like a drive is no
host. -/
def afterFileHost? (cs : List Char) : Option (List Char) :=
  let host := cs.takeWhile fun c => !endsAuthority true c
  if isDrive host then some cs
  else if host.isEmpty || isWebHost host then some (cs.drop host.length)
  else none

end Federation.Url
