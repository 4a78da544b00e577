import Redline.Usage.Embed

namespace Redline.Usage

open Redline.Json

inductive Method where
  | reference
  | embed
deriving DecidableEq, Inhabited

namespace Method

def word : Method → String
  | reference => "entity_reference"
  | embed => "embed"

instance : KeyOrder Method := ⟨fun a b => decide (a = .reference ∧ b = .embed)⟩

end Method

def referenceIn? (members : List (String × Value)) : Option EntityRef := do
  let entityType ← (← members.lookup "target_type").text?
  let uuid ← Uuid.ofText? (← (← members.lookup "target_uuid").text?)
  if entityType.isEmpty then none else return ⟨entityType,uuid⟩

abbrev Occurrence := EntityRef × Method

mutual

def occurrences : Value → List Occurrence
  | .text content => (embeds content).map (·,.embed)
  | .array items => occurrencesOfItems items
  | .object members =>
      match referenceIn? members with
      | some target => [(target,.reference)]
      | none => occurrencesOfMembers members
  | _ => []

def occurrencesOfItems : List Value → List Occurrence
  | [] => []
  | item :: rest => occurrences item ++ occurrencesOfItems rest

def occurrencesOfMembers : List (String × Value) → List Occurrence
  | [] => []
  | (_,value) :: rest => occurrences value ++ occurrencesOfMembers rest

end

def tally (found : List Occurrence) : Table Occurrence Nat :=
  found.foldl (fun counts occurrence => counts.alter occurrence 0 (· + 1)) []

-- What an entity references, itself left out.
def references (e : Entity) : Table Occurrence Nat :=
  tally ((occurrencesOfMembers e.fields).filter fun (target,_) => target ≠ e.ref)

end Redline.Usage
