import Federation.Unicode.Mark

/-!
# Writing directions

Letters are written from left to right or from right to left; digits, marks and other characters go
along with them. A label in which directions mix has to satisfy the bidirectional rule of domain
names, so that it can be read in one way only. The tables are about characters that a domain name
can hold; their ranges may run over other characters.
-/

namespace Federation.Unicode

/-! ## Classes -/

/-- The letters that are written from right to left: the classes R and AL. -/
def leftwardLetters : CharSet := .ofTable "
  5be 5c0 5c3 5c6 5d0-5f4 608 60b 60d 61b-64a 66d-66f 671-6d5 6e5-6e6 6ee-6ef 6fa-710 712-72f
  74d-7a5 7b1-7ea 7f4-7f5 7fa 7fe-815 81a 824 828 830-858 85e-88f 8a0-8c9 fbb2-fbd2 fd90-fdce fe73
  10800-1091b 10920-10a00 10a10-10a35 10a40-10ae4 10aeb-10b35 10b40-10d23 10d40-10d4f 10d6e-10d8f
  10e80-10ea9 10ead-10ed8 10f00-10f45 10f51-10f81 10f86-10ff6 1e800-1e8cf 1e922-1e943 1e94b-1ed3d"

/-- The digits that are written among Arabic letters: the class AN. -/
def arabicDigits : CharSet := .ofTable "
  660-669 66b-66c 10d30-10d39 10e60-10e7e"

/-- The other digits with a class of their own: the class EN. -/
def europeanDigits : CharSet := .ofTable "
  30-39 6f0-6f9 102e1-102fb"

/-- The characters without a direction: the classes ES, ET, CS, ON and BN. -/
def neutrals : CharSet := .ofTable "
  0-8 e-1b 21-2f 3a-60 7b-d7 f7 2b9-2ba 2c2-2cf 2d2-2ed 2ef-2ff 375 3f6 58a-58f 606-607 609-60a
  60c 60e-60f 66a 6de 6e9 7f6-7f9 9f2-9f3 9fb af1 bf3-bfa c78-c7e e3f f3a-f3d 1390-1399 1400
  169b-169c 17db 17f0-180a 1940-1945 19de-19ff 200c-20c1 2104-214d 218a-2335 237b-2394 2396-2426
  2440-26ab 26ad-27ff 2900-2b95 2b97-2bff 2ce5-2cea 2cf9-2cff 2e00-3004 3008-3020 3030 3037
  303d-303f 30a0 30fb 31c0-31e3 4dc0-4dff a490-a4c6 a60d-a60f a673 a67e-a67f a700-a721 a788
  a828-a82b a838-a839 a874-a877 ab6a-ab6b fd3e-fd4f fdcf-fdff fe45-fe46 10101 10140-1018c
  10190-101a0 1091f 10b39-10b3f 11052-11065 11660-1166c 11fd5-11ff1 16fe2 1d1e9-1d241 1d245
  1d300-1d356 1e2ff 1eef0-1f12f 1f16d-1f16f 1f1ad 1f260-1f6d7 1f6dc-1f776 1f77b-1f8b1 1f900-1fa53
  1fa60-1fa88 1fa90-1fabd 1fabf-1fac5 1face-1fadb 1fae0-1fae8 1faf0-1fbca"

/-- What a character says about the direction of the text it is in. -/
inductive Direction where
  | rightward | leftward | arabicDigit | europeanDigit | mark | neutral
deriving DecidableEq, Repr

/-- The direction of a character; one that no table lists is written from left to right. -/
def Direction.of (c : Char) : Direction :=
  if leftwardLetters.contains c then .leftward
  else if nonspacingMarks.contains c then .mark
  else if europeanDigits.contains c then .europeanDigit
  else if arabicDigits.contains c then .arabicDigit
  else if neutrals.contains c then .neutral
  else .rightward

/-! ## The bidirectional rule -/

namespace Direction

/-- A text with such a character is written from right to left, at least in part. -/
def isLeftward (d : Direction) : Bool :=
  d == .leftward || d == .arabicDigit

/-- The last direction before the marks that end a label. -/
def lastUnmarked? (ds : List Direction) : Option Direction :=
  (ds.reverse.dropWhile (· == .mark)).head?

/-- A label from right to left holds no letter from left to right, ends in a letter or digit, and
has digits of one kind only. -/
def isLeftwardLabel (ds : List Direction) : Bool :=
  ds.head? == some .leftward && !ds.contains .rightward &&
    (lastUnmarked? ds).any (fun d => d == .leftward || d == .europeanDigit || d == .arabicDigit) &&
    !(ds.contains .europeanDigit && ds.contains .arabicDigit)

/-- A label from left to right holds nothing from right to left and ends in a letter or digit. -/
def isRightwardLabel (ds : List Direction) : Bool :=
  ds.head? == some .rightward && !ds.any isLeftward &&
    (lastUnmarked? ds).any fun d => d == .rightward || d == .europeanDigit

end Direction

/-- The label satisfies the bidirectional rule. -/
def hasOneDirection (label : List Char) : Bool :=
  let ds := label.map Direction.of
  Direction.isLeftwardLabel ds || Direction.isRightwardLabel ds

/-- The text has a part that is written from right to left. -/
def hasLeftwardPart (cs : List Char) : Bool :=
  cs.any fun c => (Direction.of c).isLeftward

end Federation.Unicode
