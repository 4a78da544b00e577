import Redline.Desk.Work

namespace Redline.Desk

def counted (name field : String) (n : Nat) : String := s!"{name} \x7b {field}: {n} \x7d"

def registryLine (desk : Desk) : String := counted "EntityUsage" "sources" desk.registry.sourceCount

def overview (desk : Desk) : List String :=
  [counted "MemoryContentStorage" "entities" desk.store.length,
    counted "MemoryQueue" "queues" desk.queues.length,
    desk.registryLine,
    "UsageWorker \x7b usage: " ++ desk.registryLine ++ " \x7d",
    counted "CronService" "batch_size" desk.batchSize,
    "Metrics"]

end Redline.Desk
