/-!
# Type references

The type of a field, an argument or an input field: a named type under list and non-null marks.
Subgraphs may disagree on the outermost mark of a type, and only there, except that a list level too
many on the first of two types goes unnoticed.
-/

namespace Federation

/-! ## List and non-null marks -/

/-- The marks around a named type. `lists` has one entry for each list level, innermost first, which
tells whether that list is non-null. -/
structure Wrapping where
  innerRequired : Bool := false
  lists : List Bool := []
deriving DecidableEq, Repr, Inhabited

namespace Wrapping

/-- One more list level around everything. -/
def wrapList (w : Wrapping) : Wrapping :=
  { w with lists := w.lists ++ [false] }

/-- The outermost level becomes non-null. -/
def require (w : Wrapping) : Wrapping :=
  match w.lists with
  | [] => { w with innerRequired := true }
  | _ :: _ => { w with lists := w.lists.dropLast ++ [true] }

/-- The type is a list. -/
def isList (w : Wrapping) : Bool :=
  !w.lists.isEmpty

/-- The outermost level is non-null. -/
def isRequired (w : Wrapping) : Bool :=
  w.lists.getLast?.getD w.innerRequired

@[simp] theorem isRequired_nil (b : Bool) : (Wrapping.mk b []).isRequired = b := rfl

@[simp] theorem isRequired_require (w : Wrapping) : w.require.isRequired = true := by
  unfold require isRequired
  split <;> simp_all

@[simp] theorem isList_wrapList (w : Wrapping) : w.wrapList.isList = true := by
  simp [wrapList, isList]

end Wrapping

/-! ## References -/

/-- A named type with its marks. -/
structure TypeRef where
  name : String
  wrapping : Wrapping := {}
deriving DecidableEq, Repr, Inhabited

namespace TypeRef

/-- The largest number of list levels that a schema may use. -/
def maxListLevels : Nat := 10

/-- The text of one more list level. -/
def textOfLevel (inner : String) (isRequired : Bool) : String :=
  if isRequired then "[" ++ inner ++ "]!" else "[" ++ inner ++ "]"

/-- The reference as schemas write it. -/
def text (t : TypeRef) : String :=
  t.wrapping.lists.foldl textOfLevel (if t.wrapping.innerRequired then t.name ++ "!" else t.name)

/-- A character that stands around a name in the text of a type reference. -/
def isMark (c : Char) : Bool :=
  c == '[' || c == ']' || c == '!'

/-- The name in the text of a type reference, which is what is left when the marks at both ends are
cut off. -/
def nameOfText (text : String) : String :=
  String.ofList ((text.toList.dropWhile isMark).reverse.dropWhile isMark).reverse

/-! ## Agreement between subgraphs -/

/-- Goes along the list levels of two types. Inner levels must be equal. At the end of the shorter
side the answer is whether the other type's last level is non-null. The first type may have one
level more than the second. -/
def outermostRequired? : List Bool → List Bool → Option Bool
  | [_], [b] => some b
  | [_, _], [b] => some b
  | a :: as, b :: bs => if a = b then outermostRequired? as bs else none
  | _, _ => none

/-- Tells for types that agree whether the second is non-null at its outermost level; `none` for
types that differ in more than that level. -/
def compose? (t other : TypeRef) : Option Bool :=
  if t = other then some true
  else if t.name ≠ other.name then none
  else
    match t.wrapping.lists, other.wrapping.lists with
    | [], [] => some other.wrapping.innerRequired
    | a :: as, b :: bs =>
      if t.wrapping.innerRequired ≠ other.wrapping.innerRequired then none
      else outermostRequired? (a :: as) (b :: bs)
    | _, _ => none

/-- The type of an input position, where the stricter one of two types holds. -/
def composeInput? (t other : TypeRef) : Option TypeRef :=
  (t.compose? other).map fun required => if required then other else t

/-- The type of an output position, where the weaker one of two types holds. -/
def composeOutput? (t other : TypeRef) : Option TypeRef :=
  (t.compose? other).map fun required => if required then t else other

@[simp] theorem compose?_self (t : TypeRef) : t.compose? t = some true := by
  simp [compose?]

end TypeRef

/-! ## Built-in scalars -/

/-- The scalar types that every schema has without a definition. -/
def builtInScalars : List String := ["String", "Int", "Float", "Boolean", "ID"]

/-- The name of a built-in scalar. -/
def isBuiltInScalar (name : String) : Bool :=
  builtInScalars.contains name

end Federation
