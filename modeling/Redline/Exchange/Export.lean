import Redline.Exchange.Document
import Redline.Exchange.Report
import Redline.Desk.Work

namespace Redline.Exchange

open Files

structure Progress where
  tree : Tree
  report : Report := {}
deriving Inhabited

namespace Progress

def warn (p : Progress) (warning : Warning) : Progress := { p with report := p.report.warn warning }

def isCurrent (tree : Tree) (path : Path) (d : Document) : Bool :=
  match tree.readText path with
  | .ok text => d.isHeldBy text
  | .error _ => false

def writeEntity (here : Location) (stamp : String) (p : Progress) (e : Entity) : Progress :=
  let file := here.child (fileName e.uuid)
  let d := Document.ofEntity stamp e
  if isCurrent p.tree file.path d then { p with report.unchanged := p.report.unchanged + 1 }
  else match p.tree.write file.path (.text d.page) with
    | .ok tree => ⟨tree,p.report.count e.entityType⟩
    | .error problem => p.warn (.notWritten file.shown problem)

def removeStale (here : Location) (keep : List String) (p : Progress) (name : String) : Progress :=
  if (fileUuid? name).isNone ∨ keep.contains name then p
  else
    let file := here.child name
    match p.tree.remove file.path with
    | .ok tree => { p with tree := tree, report.removed := p.report.removed + 1 }
    | .error problem => p.warn (.notRemoved file.shown problem)

def clean (here : Location) (keep : List String) (p : Progress) : Progress :=
  match p.tree.list here.path with
  | .ok names => names.foldl (removeStale here keep) p
  | .error _ => p.warn (.notCleaned here.shown)

def writeAll (here : Location) (stamp : String) (cleaning : Bool) (entities : List Entity) (p : Progress) :
    Progress :=
  let written := entities.foldl (writeEntity here stamp) p
  if cleaning then clean here (entities.map fun e => fileName e.uuid) written else written

end Progress

structure ExportOrder where
  place : Location
  clean : Bool
  stamp : String
deriving Inhabited

def exportType (desk : Desk) (order : ExportOrder) (p : Progress) (entityType : String) :
    Progress × Option Failure :=
  match segmentProblem? entityType with
  | some problem => (p.warn (.unsafeType problem),none)
  | none =>
      let here := order.place.child entityType
      match p.tree.ensureDirectory here.path with
      | .error problem =>
          ({ p with tree := p.tree.leftovers here.path },some ⟨[.createDirectory here.shown],.file problem⟩)
      | .ok tree =>
          match desk.list entityType with
          | .error failure => ({ p with tree },some (failure.within (.listEntities entityType)))
          | .ok entities => (Progress.writeAll here order.stamp order.clean entities { p with tree },none)

def exportTypes (desk : Desk) (order : ExportOrder) (p : Progress) : List String → Progress × Option Failure
  | [] => (p,none)
  | entityType :: rest =>
      match exportType desk order p entityType with
      | (p,none) => exportTypes desk order p rest
      | stopped => stopped

-- All content of a desk into the tree. What was written or made before a failure stays.
def exportContent (desk : Desk) (order : ExportOrder) (tree : Tree) : Attempt Report × Tree :=
  match tree.ensureDirectory order.place.path with
  | .error problem =>
      (.error ⟨[.createDirectory order.place.shown],.file problem⟩,tree.leftovers order.place.path)
  | .ok tree =>
      match desk.types with
      | .error failure => (.error (failure.within .listTypes),tree)
      | .ok types =>
          match exportTypes desk order ⟨tree,{}⟩ types with
          | (p,none) => (.ok p.report,p.tree)
          | (p,some failure) => (.error failure,p.tree)

end Redline.Exchange
