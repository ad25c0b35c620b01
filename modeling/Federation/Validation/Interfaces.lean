import Federation.Validation.Rule

/-!
# Entity interfaces

A subgraph that fetches objects by the key of an interface knows every implementation by the same
key. Objects can stand in for an interface only by a key, and only if some subgraph has the
interface.
-/

namespace Federation.Validation

/-! ## Keys -/

/-- A key of an interface that an implementation in the same subgraph lacks. -/
def missingKeys (s : Subgraph) (d : TypeDef) : Diagnostics :=
  d.resolvableKeys.flatMap fun key =>
    ((s.implementers d.name).filter fun implementer =>
      !implementer.keys.any fun other => other.text == key.text).map fun implementer =>
        .error .interfaceKeyNotOnImplementation
          s!"[{s.name}] Key @key(fields: \"{key.text}\") on interface type \"{d.name}\" is missing on implementation type \"{implementer.name}\"."

/-- Implementations have the resolvable keys of their interface. -/
def interfaceKeyNotOnImplementation : Rule where
  onType c t :=
    if t.kind ≠ .interface then []
    else t.byGraph.flatMap fun (id, d) =>
      if d.isInterfaceObject then [] else missingKeys (c.subgraph id) d

/-! ## Objects that stand in for interfaces -/

/-- Objects that stand in for an interface have a key. -/
def keylessInterfaceObjects (c : Context) (t : MergedType) : Diagnostics :=
  t.byGraph.filterMap fun (id, d) =>
    if d.isInterfaceObject && d.keys.isEmpty then
      let name := c.nameOf id
      some (.error .interfaceObjectUsageError
        s!"[{name}] The @interfaceObject directive can only be applied to entity types but type \"{t.name}\" has no @key in this subgraph.")
    else none

/-- Some subgraph has the interface that objects stand in for. -/
def onlyInterfaceObjects (c : Context) (t : MergedType) : Diagnostics :=
  let standIns := t.interfaceObjectSubgraphs
  if !standIns.isEmpty && t.byGraph.all fun e => e.2.isInterfaceObject then
    [.error .interfaceObjectUsageError
      s!"Type \"{t.name}\" is declared with @interfaceObject in all the subgraphs in which is is defined (it is defined in {c.phrase standIns} but should be defined as an interface in at least one subgraph)"]
  else []

/-- The implementing objects that a subgraph does not define. -/
def undefinedImplementations (c : Context) (t : MergedType) (s : Subgraph) : List String :=
  t.implementations.filter fun name => (c.merged.object? name).isSome && !s.defines name

/-- A subgraph with a resolvable key on an interface defines all its implementations. -/
def missingImplementations (c : Context) (t : MergedType) : Diagnostics :=
  t.byGraph.filterMap fun (id, d) => do
    guard (!d.isInterfaceObject)
    let key ← d.resolvableKeys.head?
    let missing := undefinedImplementations c t (c.subgraph id)
    guard (!missing.isEmpty)
    let name := c.nameOf id
    let names := ", ".intercalate (missing.map quotedName)
    return .error .interfaceKeyMissingImplementationType
      s!"[{name}] Interface type \"{t.name}\" has a resolvable key (@key(fields: \"{key.text}\")) in subgraph \"{name}\" but that subgraph is missing some of the supergraph implementation types of \"{t.name}\". Subgraph \"{name}\" should define {names} (and have them implement \"{t.name}\")."

/-- Objects stand in only for interfaces that can be resolved. -/
def interfaceObjectUsage : Rule where
  onType c t :=
    if t.kind ≠ .interface then []
    else keylessInterfaceObjects c t ++ onlyInterfaceObjects c t ++ missingImplementations c t

end Federation.Validation
