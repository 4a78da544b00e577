import Redline.Exchange.Segment
import Redline.Desk.Failure

namespace Redline.Exchange

inductive Warning where
  | unsafeType (problem : SegmentProblem)
  | unsafeDirectory (problem : SegmentProblem)
  | notWritten (shown : String) (problem : Files.Problem)
  | notRemoved (shown : String) (problem : Files.Problem)
  | notCleaned (shown : String)
  | link (label : String)
  | tooLarge (label : String) (size : Nat)
  | noUuid (label : String)
  | notRead (shown : String) (problem : Files.Problem)
  | notParsed (label : String)
  | newerFormat (label : String) (version : Nat)
  | otherUuid (label : String) (ofFile ofEntity : Uuid)
  | otherType (label directory entityType : String)
  | duplicate (label : String) (uuid : Uuid)
  | notSaved (label : String) (failure : Failure)
deriving DecidableEq, Inhabited

def sizeLimit : Nat := 10 * 1024 * 1024

namespace Warning

def message : Warning → String
  | unsafeType problem => "skipping entity type with unsafe name: " ++ problem.message
  | unsafeDirectory problem => "skipping directory: " ++ problem.message
  | notWritten shown problem => s!"failed to write {shown}: " ++ problem.message
  | notRemoved shown problem => s!"failed to remove stale file {shown}: " ++ problem.message
  | notCleaned shown => s!"failed to clean stale files: failed to read directory {shown}"
  | link label => s!"skipping symlink: {label}"
  | tooLarge label size => s!"skipping {label}: file size {size} bytes exceeds limit of {sizeLimit} bytes"
  | noUuid label => s!"skipping {label}: filename is not a UUID"
  | notRead shown problem => s!"failed to read {shown}: " ++ problem.message
  | notParsed label => s!"failed to parse {label}"
  | newerFormat label version =>
      s!"{label}: export format version {version} is newer than supported version 1"
  | otherUuid label ofFile ofEntity =>
      s!"{label}: filename UUID '" ++ ofFile.text ++ "' does not match content UUID '" ++ ofEntity.text ++ "'"
  | otherType label directory entityType =>
      s!"{label}: directory '{directory}' does not match entity type '{entityType}'"
  | duplicate label uuid => s!"{label}: duplicate entity with UUID '" ++ uuid.text ++ "' (skipped)"
  | notSaved label failure => s!"failed to save {label}: " ++ failure.headline

end Warning

-- Counts are files written or entities taken over, by type; a type without any has no row.
structure Report where
  counts : Table String Nat := []
  unchanged : Nat := 0
  removed : Nat := 0
  warnings : List Warning := []
deriving Inhabited

namespace Report

def total (report : Report) : Nat := report.counts.values.foldr (· + ·) 0

def count (report : Report) (entityType : String) : Report :=
  { report with counts := report.counts.alter entityType 0 (· + 1) }

def warn (report : Report) (warning : Warning) : Report :=
  { report with warnings := report.warnings ++ [warning] }

end Report

end Redline.Exchange
