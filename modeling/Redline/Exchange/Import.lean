import Redline.Exchange.Document
import Redline.Exchange.Report
import Redline.Desk.Work

namespace Redline.Exchange

open Files

structure Found where
  file : String
  entity : Entity
deriving Inhabited

def labelOf (directory name : String) : String := directory ++ "/" ++ name

def isContentName (name : String) : Bool :=
  name.toList.head? ≠ some '.' && Text.endsWith jsonEnding name.toList

def mismatches (directory name : String) (uuid : Uuid) (d : Document) : List Warning :=
  let label := labelOf directory name
  (if d.version > Document.formatVersion then [.newerFormat label d.version] else []) ++
    (if d.entity.uuid ≠ uuid then [.otherUuid label uuid d.entity.uuid] else []) ++
    (if d.entity.entityType ≠ directory then [.otherType label directory d.entity.entityType] else [])

def readFile (tree : Tree) (here : Location) (directory name : String) : List Warning × Option Found :=
  let label := labelOf directory name
  let file := here.child name
  match tree.look false file.path with
  | .error problem => ([.notRead file.shown problem],none)
  | .ok (.link _) => ([.link label],none)
  | .ok node =>
      let size := match node with
        | .file content => content.size
        | _ => 0
      if size > sizeLimit then ([.tooLarge label size],none)
      else match fileUuid? name with
        | none => ([.noUuid label],none)
        | some uuid =>
            match tree.readText file.path with
            | .error problem => ([.notRead file.shown problem],none)
            | .ok text =>
                match Document.ofText? text with
                | none => ([.notParsed label],none)
                | some d => (mismatches directory name uuid d,some ⟨name,d.entity⟩)

def byName (found : List Found) : List Found := found.mergeSort fun a b => decide (a.file ≤ b.file)

-- The first file of each UUID counts.
def dropDuplicates (directory : String) (seen : List Uuid) : List Found → List Warning × List Found
  | [] => ([],[])
  | found :: rest =>
      let uuid := found.entity.uuid
      if seen.contains uuid then
        let (warnings,kept) := dropDuplicates directory seen rest
        (.duplicate (labelOf directory found.file) uuid :: warnings,kept)
      else
        let (warnings,kept) := dropDuplicates directory (uuid :: seen) rest
        (warnings,found :: kept)

def readNames (tree : Tree) (here : Location) (directory : String) (names : List String) :
    List Warning × List Found :=
  let read := (names.filter isContentName).map (readFile tree here directory)
  let (duplicates,kept) := dropDuplicates directory [] (byName (read.filterMap Prod.snd))
  (read.flatMap Prod.fst ++ duplicates,kept)

structure Findings where
  warnings : List Warning := []
  groups : Table String (List Found) := []
deriving Inhabited

-- One entry: only plain directories with a safe name hold content.
def readEntry (tree : Tree) (place : Location) (findings : Findings) (directory : String) : Findings :=
  let here := place.child directory
  if directory.toList.head? = some '.' then findings
  else match tree.look false here.path with
    | .ok .directory =>
        match segmentProblem? directory with
        | some problem => { findings with warnings := findings.warnings ++ [.unsafeDirectory problem] }
        | none =>
            let (warnings,found) := readNames tree here directory ((tree.list here.path).toOption.getD [])
            { warnings := findings.warnings ++ warnings
              groups := if found.isEmpty then findings.groups else findings.groups.insert directory found }
    | _ => findings

def readTree (tree : Tree) (place : Location) : Attempt Findings :=
  match tree.list place.path with
  | .error problem => .error ⟨[.readDirectory place.shown],.file problem⟩
  | .ok names => .ok (names.foldl (readEntry tree place) {})

-- Saving goes on after an entity that could not be saved.
def saveFound (directory : String) (state : Report × Desk) (found : Found) : Report × Desk :=
  match state.2.save found.entity with
  | .ok desk => (state.1.count directory,desk)
  | .error failure => (state.1.warn (.notSaved (labelOf directory found.file) failure),state.2)

def saveGroup (state : Report × Desk) (group : String × List Found) : Report × Desk :=
  group.2.foldl (saveFound group.1) state

def Findings.preview (findings : Findings) : Report :=
  { counts := findings.groups.map fun group => (group.1,group.2.length), warnings := findings.warnings }

def importContent (desk : Desk) (tree : Tree) (place : Location) (dryRun : Bool) : Attempt (Report × Desk) := do
  let findings ← readTree tree place
  if dryRun then return (findings.preview,desk)
  else return findings.groups.foldl saveGroup ({ warnings := findings.warnings },desk)

end Redline.Exchange
