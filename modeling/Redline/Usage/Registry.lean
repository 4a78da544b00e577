import Redline.Usage.Reference

namespace Redline.Usage

-- A count is kept in thirty-two bits; an entity with so many references is out of reach.
structure Row where
  source : EntityRef
  target : EntityRef
  method : Method
  count : Nat
deriving DecidableEq, Inhabited

abbrev Registry := Table EntityRef (List Row)

def rowsOf (e : Entity) : List Row :=
  (references e).map fun ((target,method),count) => ⟨e.ref,target,method,count⟩

def distinctTargets : List Row → Nat
  | [] => 0
  | [_] => 1
  | first :: second :: rest =>
      (if first.target = second.target then 0 else 1) + distinctTargets (second :: rest)

namespace Registry

-- All rows of a source are replaced by what it references now.
def register (registry : Registry) (e : Entity) : Registry :=
  if (rowsOf e).isEmpty then Table.erase e.ref registry else Table.insert e.ref (rowsOf e) registry

def remove (registry : Registry) (source : EntityRef) : Registry := Table.erase source registry

def targets (registry : Registry) (source : EntityRef) : List Row := (Table.find? source registry).getD []

def sources (registry : Registry) (target : EntityRef) : List Row :=
  (Table.values registry).flatten.filter (·.target = target)

def sourceCount (registry : Registry) : Nat := registry.length

end Registry

end Redline.Usage
