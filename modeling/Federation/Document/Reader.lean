import Federation.Document.Token

/-!
# Readers

A reader takes something from the front of a token list. There is one token of lookahead and no
going back: what a reader accepts is decided at the first token that does not fit.
-/

namespace Federation.Document

/-- Why a document cannot be read. -/
inductive ReadError where
  /-- The grammar has no such document. -/
  | ungrammatical
  /-- The document uses a number, string or type that is beyond what can be held. -/
  | beyondLimit
deriving DecidableEq, Repr

/-- A reader of a token list. -/
abbrev Reader (α : Type) : Type := StateT (List Token) (Except ReadError) α

namespace Reader

/-! ## Single tokens -/

/-- Gives up at the current token, or on what stands before it: nothing is looked at before the
token after it has been read. -/
def reject {α : Type} : Reader α := do
  match ← get with
  | .outsideRange :: _ => throw .beyondLimit
  | _ => throw .ungrammatical

/-- Gives up on something too large to hold, which goes unnoticed before a token that may not
follow. -/
def overLimit {α : Type} (mayFollow : Token → Bool) : Reader α := do
  match ← get with
  | token :: _ => if mayFollow token then throw .beyondLimit else reject
  | [] => reject

/-- The current token. -/
def peek : Reader (Option Token) :=
  return (← get).head?

/-- Moves past the current token. -/
def advance : Reader Unit :=
  modify List.tail

/-- The current token is this mark. -/
def atMark (m : Mark) : Reader Bool :=
  return (← peek) == some (.mark m)

/-- The current token is this name. -/
def atName (text : String) : Reader Bool :=
  return (← peek) == some (.name text)

/-- Moves past a mark if it is there. -/
def accept (m : Mark) : Reader Bool := do
  if ← atMark m then
    advance
    return true
  else return false

/-- Moves past a name if it is there. -/
def acceptName (text : String) : Reader Bool := do
  if ← atName text then
    advance
    return true
  else return false

/-- Moves past a mark that has to be there. -/
def expect (m : Mark) : Reader Unit := do
  unless ← accept m do reject

/-- Moves past a name that has to be there. -/
def expectName (text : String) : Reader Unit := do
  unless ← acceptName text do reject

/-- Any name. -/
def name : Reader String := do
  match ← peek with
  | some (.name text) =>
    advance
    return text
  | _ => reject

/-! ## Repetition -/

/-- Reads items as long as `more` holds of the tokens that are left, a number of times at most. -/
def repeatFor {α : Type} (more : List Token → Bool) (item : Reader α) : Nat → Reader (List α)
  | 0 => return []
  | times + 1 => do
    if more (← get) then
      let first ← item
      let others ← repeatFor more item times
      return first :: others
    else return []

/-- Reads items as long as `more` holds of the tokens that are left. Each item takes a token, so
there are no more items than tokens. -/
def repeatWhile {α : Type} (more : List Token → Bool) (item : Reader α) : Reader (List α) := do
  repeatFor more item (← get).length

/-- Reads items up to a closing mark, and the mark. -/
def upTo {α : Type} (close : Mark) (item : Reader α) : Reader (List α) := do
  let items ← repeatWhile (fun tokens => tokens.head? != some (.mark close)) item
  expect close
  return items

/-- Reads at least one item up to a closing mark, and the mark. -/
def someUpTo {α : Type} (close : Mark) (item : Reader α) : Reader (List α) := do
  if ← atMark close then reject else upTo close item

/-- Items between marks, or nothing when the opening mark is not there. -/
def optionalGroup {α : Type} (openMark : Mark) (items : Reader (List α)) : Reader (List α) := do
  if ← accept openMark then items else return []

/-- Names between separating marks; one more separator may stand in front. -/
def separatedNames (separator : Mark) (item : Reader String) : Reader (List String) := do
  let _ ← accept separator
  let first ← item
  let others ← repeatWhile (fun tokens => tokens.head? == some (.mark separator)) do
    expect separator
    item
  return first :: others

/-! ## Whole documents -/

/-- Runs a reader on a text, all of which it has to use up. -/
def run {α : Type} (reader : Reader α) (text : String) : Except ReadError α := do
  let (value, rest) ← StateT.run reader (Token.scan text)
  match rest with
  | [] => return value
  | .outsideRange :: _ => throw .beyondLimit
  | _ => throw .ungrammatical

end Reader

end Federation.Document
