import Redline.Entity.Basic

namespace Redline

abbrev Store := Table EntityRef Entity

namespace Store

def save (store : Store) (e : Entity) : Store := Table.insert e.ref e store

def load (store : Store) (ref : EntityRef) : Option Entity := Table.find? ref store

def delete (store : Store) (ref : EntityRef) : Store := Table.erase ref store

def runs : List String → List String
  | [] => []
  | [word] => [word]
  | word :: next :: rest => if word = next then runs (next :: rest) else word :: runs (next :: rest)

-- The types that have an entity, in order; rows of one type stand together.
def types (store : Store) : List String := runs ((Table.keys store).map EntityRef.entityType)

def list (store : Store) (entityType : String) : List Entity :=
  Table.values (store.filter fun row => row.1.entityType = entityType)

def Keyed (store : Store) : Prop := ∀ row ∈ store, row.2.ref = row.1

theorem load_save_self (store : Store) (e : Entity) : (store.save e).load e.ref = some e :=
  Table.find?_insert_self e.ref e store

theorem load_save_other (store : Store) (e : Entity) (ref : EntityRef) (apart : ref ≠ e.ref) :
    (store.save e).load ref = store.load ref :=
  Table.find?_insert_other e.ref ref e store apart

end Store

end Redline
