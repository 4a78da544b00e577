import Redline.Proofs.Documents
import Redline.Proofs.Exporting

namespace Redline.Exchange

open Files Files.Tree Json

section Files

def FileOnly (found : Option Node) : Prop := ∀ node, found = some node → ∃ content, node = .file content

theorem fileOnly_intro {found : Option Node} (kept : NoLink found) (free : found ≠ some .directory) : FileOnly found := by
  rintro (_ | content | target) stands
  · exact absurd stands free
  · exact ⟨content,rfl⟩
  · exact absurd stands (kept target)

theorem fileOnly_file {found : Option Node} {content : Content} (file : found = some (.file content)) : FileOnly found :=
  fun _ stands => ⟨content,(Option.some.inj (file.symm.trans stands)).symm⟩

theorem FileOnly.noLink {found : Option Node} (only : FileOnly found) : NoLink found := by
  intro target stands
  obtain ⟨_,odd⟩ := only _ stands
  cases odd

theorem FileOnly.ne_directory {found : Option Node} (only : FileOnly found) : found ≠ some .directory := by
  intro stands
  obtain ⟨_,odd⟩ := only _ stands
  cases odd

-- Files of certain names come, go and change in a directory, and nothing else does anywhere.
def Rewrites (shelf : Path) (touched : String → Prop) (before after : Tree) : Prop :=
  ∀ path, node? after path = node? before path ∨ (∃ name, touched name ∧ path = shelf ++ [name]) ∧
    FileOnly (node? before path) ∧ FileOnly (node? after path)

namespace Rewrites

variable {shelf : Path} {touched : String → Prop} {before middle after : Tree}

theorem refl : Rewrites shelf touched before before := fun _ => .inl rfl

theorem trans (first : Rewrites shelf touched before middle) (last : Rewrites shelf touched middle after) :
    Rewrites shelf touched before after := by
  intro path
  rcases last path with same | ⟨inside,between,only⟩
  · rw [same]
    exact first path
  · rcases first path with same | ⟨_,only',_⟩
    · exact .inr ⟨inside,same ▸ between,only⟩
    · exact .inr ⟨inside,only',only⟩

theorem widen_names {more : String → Prop} (wider : ∀ name, touched name → more name) (rewrites : Rewrites shelf touched before after) :
    Rewrites shelf more before after := by
  intro path
  refine (rewrites path).imp_right (And.imp_left ?_)
  rintro ⟨name,mine,eq⟩
  exact ⟨name,wider name mine,eq⟩

theorem of_put {name : String} (mine : touched name) (only : FileOnly (node? before (shelf ++ [name]))) (content : Content) :
    Rewrites shelf touched before (put before (shelf ++ [name]) (.file content)) := by
  intro path
  by_cases own : path = shelf ++ [name]
  · refine .inr ⟨⟨name,mine,own⟩,own ▸ only,?_⟩
    rw [own]
    exact fileOnly_file (node?_put_self before _ (by simp))
  · exact .inl (node?_put_other before _ own)

theorem of_drop {name : String} (mine : touched name) (only : FileOnly (node? before (shelf ++ [name]))) :
    Rewrites shelf touched before (drop before (shelf ++ [name])) := by
  intro path
  by_cases own : path = shelf ++ [name]
  · refine .inr ⟨⟨name,mine,own⟩,own ▸ only,?_⟩
    intro node stands
    rw [own,node?_drop_self before (by simp)] at stands
    cases stands
  · exact .inl (node?_drop_other before own)

variable (rewrites : Rewrites shelf touched before after)

include rewrites

theorem keeps : Keeps before after := by
  intro path node stands solid
  rcases rewrites path with same | ⟨_,only,_⟩
  · exact same.trans stands
  · obtain ⟨content,file⟩ := only node stands
    exact absurd file (solid content)

theorem keeps_noLink {path : Path} (kept : NoLink (node? before path)) : NoLink (node? after path) := by
  rcases rewrites path with same | ⟨_,_,only⟩
  · exact same ▸ kept
  · exact only.noLink

theorem ne_directory {path : Path} (free : node? before path ≠ some .directory) : node? after path ≠ some .directory := by
  rcases rewrites path with same | ⟨_,_,only⟩
  · exact same ▸ free
  · exact only.ne_directory

theorem node_other {path : Path} (apart : ∀ name, touched name → path ≠ shelf ++ [name]) : node? after path = node? before path := by
  rcases rewrites path with same | ⟨⟨name,mine,eq⟩,_⟩
  · exact same
  · exact absurd eq (apart name mine)

end Rewrites

-- The file of an entity says what its document says, at whatever time that is written.
def Tells (tree : Tree) (shelf : Path) (e : Entity) : Prop :=
  ∃ text, node? tree (shelf ++ [fileName e.uuid]) = some (.file (.text text)) ∧
    ∀ stamp, (Document.ofEntity stamp e).isHeldBy text = true

theorem Tells.congr {tree other : Tree} {shelf : Path} {e : Entity} (tells : Tells tree shelf e)
    (same : node? other (shelf ++ [fileName e.uuid]) = node? tree (shelf ++ [fileName e.uuid])) : Tells other shelf e := by
  obtain ⟨text,file,held⟩ := tells
  exact ⟨text,same.trans file,held⟩

end Files

-- An entity whose document can be read back.
structure Lasting (stamp : String) (e : Entity) : Prop where
  sound : e.Sound
  nested : (Document.ofEntity stamp e).toValue.nesting ≤ greatestDepth

def entered (stamp : String) (tree : Tree) (shelf : Path) (e : Entity) : Tree :=
  put tree (shelf ++ [fileName e.uuid]) (.file (.text (Document.ofEntity stamp e).page))

theorem entered_file (stamp : String) (tree : Tree) (shelf : Path) (e : Entity) :
    node? (entered stamp tree shelf e) (shelf ++ [fileName e.uuid]) =
      some (.file (.text (Document.ofEntity stamp e).page)) := node?_put_self tree _ (by simp)

theorem entered_rewrites {tree : Tree} {shelf : Path} {e : Entity} {touched : String → Prop} (stamp : String)
    (mine : touched (fileName e.uuid)) (only : FileOnly (node? tree (shelf ++ [fileName e.uuid]))) :
    Rewrites shelf touched tree (entered stamp tree shelf e) := .of_put mine only _

section Writing

variable {tree : Tree} {place : Location} {shelf : Path} {left : Nat} (reaches : Reaches tree 40 [] place.path left shelf)
  (stamp : String) (report : Report) {e : Entity}

include reaches

theorem isCurrent_iff (kept : NoLink (node? tree (shelf ++ [fileName e.uuid]))) :
    Progress.isCurrent tree (place.child (fileName e.uuid)).path (Document.ofEntity stamp e) = true ↔ Tells tree shelf e := by
  have plain := fileName_name e.uuid
  constructor
  · intro current
    unfold Progress.isCurrent at current
    split at current
    · rename_i text read
      refine ⟨text,readText_file? reaches plain kept read,fun later => ?_⟩
      rw [Document.isHeldBy_stamp later stamp]
      exact current
    · cases current
  · rintro ⟨text,file,held⟩
    have read : readText tree (place.child (fileName e.uuid)).path = .ok text := readText_entry reaches plain file
    rw [Progress.isCurrent,read]
    exact held stamp

theorem writeEntity_current (tells : Tells tree shelf e) : Progress.writeEntity place stamp ⟨tree,report⟩ e =
    ⟨tree,{ report with unchanged := report.unchanged + 1 }⟩ := by
  have kept : NoLink (node? tree (shelf ++ [fileName e.uuid])) := by
    obtain ⟨text,file,_⟩ := tells
    exact file ▸ .of_file _
  have current := (isCurrent_iff reaches stamp kept).mpr tells
  simp only [Progress.writeEntity,current,if_true]

theorem writeEntity_stale (only : FileOnly (node? tree (shelf ++ [fileName e.uuid]))) (stale : ¬Tells tree shelf e) :
    Progress.writeEntity place stamp ⟨tree,report⟩ e = ⟨entered stamp tree shelf e,report.count e.entityType⟩ := by
  rw [← isCurrent_iff reaches stamp only.noLink,Bool.not_eq_true] at stale
  have written : write tree (place.child (fileName e.uuid)).path (.text (Document.ofEntity stamp e).page) =
      .ok (entered stamp tree shelf e) := write_entry reaches (fileName_name e.uuid) only.noLink only.ne_directory _
  simp only [Progress.writeEntity,stale,Bool.false_eq_true,if_false,written]

theorem writeEntity_tells (only : FileOnly (node? tree (shelf ++ [fileName e.uuid]))) (lasting : Lasting stamp e) :
    ∃ after report', Progress.writeEntity place stamp ⟨tree,report⟩ e = ⟨after,report'⟩ ∧ Tells after shelf e ∧
      Rewrites shelf (· = fileName e.uuid) tree after := by
  by_cases tells : Tells tree shelf e
  · exact ⟨tree,_,writeEntity_current reaches stamp report tells,tells,.refl⟩
  refine ⟨_,_,writeEntity_stale reaches stamp report only tells,⟨_,entered_file stamp tree shelf e,?_⟩,
    entered_rewrites stamp rfl only⟩
  intro later
  rw [Document.isHeldBy_stamp later stamp]
  exact Document.isHeldBy_page lasting.sound lasting.nested

theorem writeEntities_current (entities : List Entity) (tells : ∀ e ∈ entities, Tells tree shelf e) :
    entities.foldl (Progress.writeEntity place stamp) ⟨tree,report⟩ =
      ⟨tree,{ report with unchanged := report.unchanged + entities.length }⟩ := by
  induction entities generalizing report with
  | nil => rfl
  | cons e rest ih =>
      obtain ⟨own,others⟩ := List.forall_mem_cons.mp tells
      rw [List.foldl_cons,writeEntity_current reaches stamp report own,ih _ others,List.length_cons]
      simp only [Nat.add_assoc,Nat.add_comm 1]

theorem writeEntities_tell (entities : List Entity) (distinct : (entities.map Entity.uuid).Nodup)
    (only : ∀ e ∈ entities, FileOnly (node? tree (shelf ++ [fileName e.uuid])))
    (lasting : ∀ e ∈ entities, Lasting stamp e) :
    ∃ after report', entities.foldl (Progress.writeEntity place stamp) ⟨tree,report⟩ = ⟨after,report'⟩ ∧
      (∀ e ∈ entities, Tells after shelf e) ∧
      Rewrites shelf (fun name => ∃ e ∈ entities, name = fileName e.uuid) tree after := by
  induction entities generalizing tree report with
  | nil => exact ⟨tree,report,rfl,List.forall_mem_nil _,.refl⟩
  | cons e rest ih =>
      obtain ⟨fresh,behind⟩ := List.nodup_cons.mp distinct
      obtain ⟨middle,report',first,told,begun⟩ := writeEntity_tells reaches stamp report (only e (.head _))
        (lasting e (.head _))
      have apart : ∀ other ∈ rest, fileName other.uuid ≠ fileName e.uuid := by
        intro other member same
        exact fresh (fileName_injective same ▸ List.mem_map_of_mem member)
      have untouched : ∀ other ∈ rest, node? middle (shelf ++ [fileName other.uuid]) = node? tree (shelf ++ [fileName other.uuid]) := by
        intro other member
        apply begun.node_other
        rintro _ rfl same
        exact apart other member (List.singleton_inj.mp (List.append_cancel_left same))
      obtain ⟨after,report'',run,tell,further⟩ := ih (reaches.keeps begun.keeps) report' behind
        (fun other member => untouched other member ▸ only other (.tail _ member))
        (fun other member => lasting other (.tail _ member))
      refine ⟨after,report'',?_,List.forall_mem_cons.mpr ⟨told.congr (further.node_other ?_),tell⟩,?_⟩
      · rw [List.foldl_cons,first]
        exact run
      · rintro _ ⟨other,member,rfl⟩ same
        exact apart other member (List.singleton_inj.mp (List.append_cancel_left same)).symm
      · refine .trans (begun.widen_names ?_) (further.widen_names ?_)
        · rintro _ rfl
          exact ⟨e,.head _,rfl⟩
        · rintro _ ⟨other,member,rfl⟩
          exact ⟨other,.tail _ member,rfl⟩

end Writing

section Cleaning

variable {tree : Tree} {place : Location} {shelf : Path} {left : Nat} (reaches : Reaches tree 40 [] place.path left shelf)
  (report : Report) (keep : List String)

include reaches

theorem removeStale_rewrites (kept : ∀ name, NoLink (node? tree (shelf ++ [name]))) (name : String) :
    ∃ after report', Progress.removeStale place keep ⟨tree,report⟩ name = ⟨after,report'⟩ ∧
      Rewrites shelf (· ∉ keep) tree after ∧ report'.counts = report.counts ∧ report'.unchanged = report.unchanged := by
  unfold Progress.removeStale
  split
  · exact ⟨tree,report,rfl,.refl,rfl,rfl⟩
  · rename_i stale
    have gone : name ∉ keep := fun member => stale (.inr (List.contains_iff_mem.mpr member))
    dsimp only
    split
    · rename_i removed done
      obtain ⟨rfl,node,stands,solid⟩ := remove_entry reaches done
      have only : FileOnly (node? tree (shelf ++ [name])) :=
        fileOnly_intro (kept name) fun odd => solid (Option.some.inj (stands.symm.trans odd))
      exact ⟨_,_,rfl,.of_drop gone only,rfl,rfl⟩
    · exact ⟨tree,_,rfl,.refl,rfl,rfl⟩

theorem removeAll_rewrites (kept : ∀ name, NoLink (node? tree (shelf ++ [name]))) (names : List String) :
    ∃ after report', names.foldl (Progress.removeStale place keep) ⟨tree,report⟩ = ⟨after,report'⟩ ∧
      Rewrites shelf (· ∉ keep) tree after ∧ report'.counts = report.counts ∧ report'.unchanged = report.unchanged := by
  induction names generalizing tree report with
  | nil => exact ⟨tree,report,rfl,.refl,rfl,rfl⟩
  | cons name rest ih =>
      obtain ⟨middle,report',first,begun,counts,unchanged⟩ := removeStale_rewrites reaches report keep kept name
      obtain ⟨after,report'',run,further,counts',unchanged'⟩ :=
        ih (reaches.keeps begun.keeps) report' fun other => begun.keeps_noLink (kept other)
      refine ⟨after,report'',?_,begun.trans further,counts'.trans counts,unchanged'.trans unchanged⟩
      rw [List.foldl_cons,first]
      exact run

theorem clean_rewrites (kept : ∀ name, NoLink (node? tree (shelf ++ [name]))) :
    ∃ after report', Progress.clean place keep ⟨tree,report⟩ = ⟨after,report'⟩ ∧
      Rewrites shelf (· ∉ keep) tree after ∧ report'.counts = report.counts ∧ report'.unchanged = report.unchanged := by
  obtain ⟨after,report',run,rest⟩ := removeAll_rewrites reaches report keep kept (children tree shelf)
  refine ⟨after,report',?_,rest⟩
  simp only [Progress.clean,list_entries reaches]
  exact run

end Cleaning

section Shelves

variable {tree : Tree} {place : Location} {shelf : Path} {left : Nat} (reaches : Reaches tree 40 [] place.path left shelf)
  (kept : ∀ name, NoLink (node? tree (shelf ++ [name]))) (stamp : String) (cleaning : Bool) (entities : List Entity)
  (report : Report)

include reaches kept

theorem writeAll_tells (distinct : (entities.map Entity.uuid).Nodup)
    (free : ∀ e ∈ entities, node? tree (shelf ++ [fileName e.uuid]) ≠ some .directory)
    (lasting : ∀ e ∈ entities, Lasting stamp e) :
    ∃ after report', Progress.writeAll place stamp cleaning entities ⟨tree,report⟩ = ⟨after,report'⟩ ∧
      (∀ e ∈ entities, Tells after shelf e) ∧ Rewrites shelf (fun _ => True) tree after := by
  obtain ⟨middle,report',run,tell,begun⟩ := writeEntities_tell reaches stamp report entities distinct
    (fun e member => fileOnly_intro (kept _) (free e member)) lasting
  have wide : Rewrites shelf (fun _ => True) tree middle := begun.widen_names fun _ _ => trivial
  cases cleaning with
  | false =>
      refine ⟨middle,report',?_,tell,wide⟩
      simp only [Progress.writeAll,run,Bool.false_eq_true,if_false]
  | true =>
      obtain ⟨after,report'',cleaned,further,_⟩ := clean_rewrites (reaches.keeps begun.keeps) report'
        (entities.map fun e => fileName e.uuid) fun name => begun.keeps_noLink (kept name)
      refine ⟨after,report'',?_,fun e member => (tell e member).congr (further.node_other ?_),
        wide.trans (further.widen_names fun _ _ => trivial)⟩
      · simp only [Progress.writeAll,run,if_true]
        exact cleaned
      · rintro name stale same
        rw [← List.singleton_inj.mp (List.append_cancel_left same)] at stale
        exact stale (List.mem_map_of_mem member)

theorem writeAll_current (tell : ∀ e ∈ entities, Tells tree shelf e) :
    ∃ after report', Progress.writeAll place stamp cleaning entities ⟨tree,report⟩ = ⟨after,report'⟩ ∧
      report'.counts = report.counts ∧ report'.unchanged = report.unchanged + entities.length ∧
      Rewrites shelf (· ∉ entities.map fun e => fileName e.uuid) tree after ∧ (cleaning = false → after = tree) := by
  have current := writeEntities_current reaches stamp report entities tell
  cases cleaning with
  | false =>
      refine ⟨tree,{ report with unchanged := report.unchanged + entities.length },?_,rfl,rfl,.refl,fun _ => rfl⟩
      simp only [Progress.writeAll,current,Bool.false_eq_true,if_false]
  | true =>
      obtain ⟨after,report',cleaned,rewrites,counts,unchanged⟩ := clean_rewrites reaches
        { report with unchanged := report.unchanged + entities.length } (entities.map fun e => fileName e.uuid) kept
      refine ⟨after,report',?_,counts,unchanged,rewrites,fun odd => by cases odd⟩
      simp only [Progress.writeAll,current,if_true]
      exact cleaned

end Shelves

end Redline.Exchange
