import Redline.Table
import Redline.Text.Search

namespace Redline

structure DrainSummary where
  processed : Nat := 0
  removed : Nat := 0
  skipped : Nat := 0
deriving DecidableEq, Inhabited

namespace DrainSummary

def total (s : DrainSummary) : Nat := s.processed + s.removed + s.skipped

def add (a b : DrainSummary) : DrainSummary :=
  ⟨a.processed + b.processed,a.removed + b.removed,a.skipped + b.skipped⟩

end DrainSummary

structure Counters where
  documentsFiltered : Table String Nat := []
  markupStripped : Nat := 0
  tokensIssued : Nat := 0
  diffsComputed : Nat := 0
  usageItems : DrainSummary := {}
deriving DecidableEq, Inhabited

namespace Counters

def recordFilter (c : Counters) (format : String) (hadMarkup : Bool) : Counters :=
  { c with
    documentsFiltered := c.documentsFiltered.alter format 0 (· + 1)
    markupStripped := c.markupStripped + if hadMarkup then 1 else 0 }

def recordToken (c : Counters) : Counters := { c with tokensIssued := c.tokensIssued + 1 }

def recordDiff (c : Counters) : Counters := { c with diffsComputed := c.diffsComputed + 1 }

def recordUsage (c : Counters) (summary : DrainSummary) : Counters :=
  { c with usageItems := c.usageItems.add summary }

def head (name help : String) : String := s!"# HELP {name} {help}.\n# TYPE {name} counter\n"

def plain (name help : String) (count : Nat) : String := head name help ++ s!"{name}_total {count}\n"

def family (name help label : String) (rows : List (String × Nat)) : String :=
  head name help ++
    Text.joined "" (rows.map fun (value,count) => s!"{name}_total\x7b{label}=\"" ++ value ++ s!"\"\x7d {count}\n")

def usageRows (s : DrainSummary) : List (String × Nat) :=
  [("processed",s.processed),("removed",s.removed),("skipped",s.skipped)].filter (0 < ·.2)

def page (c : Counters) : String :=
  family "documents_filtered" "Documents run through a text format" "format" c.documentsFiltered ++
    plain "collaboration_markup_stripped" "Documents that had collaboration markup removed" c.markupStripped ++
    plain "collaboration_tokens_issued" "Collaboration tokens issued" c.tokensIssued ++
    plain "diffs_computed" "Document diffs computed" c.diffsComputed ++
    family "usage_items_processed" "Entity usage queue items handled" "outcome" (usageRows c.usageItems) ++
    "# EOF\n"

end Counters

end Redline
