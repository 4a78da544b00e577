import Redline.Proofs.FileCalls
import Redline.Proofs.Guarding
import Redline.Proofs.Settling

namespace Redline.Exchange

open Files Files.Tree

section Places

-- What may become of an entry of the tree, by its path: the directory of a type is new, the file of an
-- entity is written where there was none or over another one, or a stale one is removed.
inductive Confined (desk : Desk) (order : ExportOrder) (here path : Path) (before after : Option Node) : Prop where
  | same : after = before → Confined desk order here path before after
  | opened {entityType : String} : entityType ∈ safeTypes desk.store → path = here ++ [entityType] →
      before = none → after = some .directory → Confined desk order here path before after
  | written {entityType : String} {e : Entity} : entityType ∈ safeTypes desk.store → e ∈ desk.store.list entityType →
      path = here ++ [entityType] ++ [fileName e.uuid] → FileOnly before →
      after = some (.file (.text (Document.ofEntity order.stamp e).page)) → Confined desk order here path before after
  | removed {entityType name : String} {node : Node} : order.clean = true → entityType ∈ safeTypes desk.store →
      Stale desk.store entityType name → path = here ++ [entityType] ++ [name] → before = some node →
      node ≠ .directory → after = none → Confined desk order here path before after

variable {desk : Desk} {order : ExportOrder} {here path : Path} {before middle after : Option Node}

theorem Confined.refl : Confined desk order here path before before := .same rfl

-- A file that is written is not stale, so one that is written is not removed, nor the other way round.
theorem Confined.trans (first : Confined desk order here path before middle)
    (last : Confined desk order here path middle after) : Confined desk order here path before after := by
  cases first with
  | same same => exact same ▸ last
  | opened exported own absent stands =>
      cases last with
      | same same => exact .opened exported own absent (same.trans stands)
      | opened _ _ absent' _ => cases absent'.symm.trans stands
      | written _ _ _ only _ => exact absurd stands only.ne_directory
      | removed _ _ _ _ there other _ => exact absurd (Option.some.inj (there.symm.trans stands)) other
  | written exported member own only written =>
      cases last with
      | same same => exact .written exported member own only (same.trans written)
      | opened _ _ absent _ => cases absent.symm.trans written
      | written exported' member' own' _ written' => exact .written exported' member' own' only written'
      | removed _ _ stale own' _ _ _ =>
          obtain ⟨rfl,rfl⟩ := by simpa using own.symm.trans own'
          exact absurd rfl (stale.unkept _ member)
  | removed cleaning exported stale own there other gone =>
      cases last with
      | same same => exact .removed cleaning exported stale own there other (same.trans gone)
      | opened _ own' _ _ => exact absurd (own'.symm.trans own) (by simp)
      | written _ member own' _ _ =>
          obtain ⟨rfl,rfl⟩ := by simpa using own.symm.trans own'
          exact absurd rfl (stale.unkept _ member)
      | removed _ _ _ _ there' _ _ => cases gone.symm.trans there'

theorem Confined.keeps_noLink (confined : Confined desk order here path before after) (kept : NoLink before) : NoLink after := by
  cases confined with
  | same same => exact same ▸ kept
  | opened _ _ _ stands => exact stands ▸ .of_directory
  | written _ _ _ _ written => exact written ▸ .of_file _
  | removed _ _ _ _ _ _ gone => exact gone ▸ .of_none

-- No link stands for the directory of a type or for the file of an entity.
structure Unlinked (desk : Desk) (tree : Tree) (here : Path) : Prop where
  shelves : ∀ entityType ∈ safeTypes desk.store, NoLink (node? tree (here ++ [entityType]))
  files : ∀ entityType ∈ safeTypes desk.store, ∀ e ∈ desk.store.list entityType,
    NoLink (node? tree (here ++ [entityType] ++ [fileName e.uuid]))

-- Besides, what the way to the directory of the export needs of the tree has no link that lies in the
-- directory of a type, where a cleaning could remove it.
structure Straight (desk : Desk) (order : ExportOrder) (tree : Tree) (here : Path) : Prop
    extends Unlinked desk tree here where
  way : ∃ part : Tree, part.resolve true order.place.path = .ok here ∧ node? part here = some .directory ∧
    ∀ path node, node? part path = some node → node? tree path = some node ∧ (∀ target, node = .link target →
      ∀ entityType ∈ safeTypes desk.store, ∀ name, path ≠ here ++ [entityType] ++ [name])

variable {tree now : Tree}

theorem Straight.reaches_confined (straight : Straight desk order tree here)
    (confined : ∀ path, Confined desk order here path (node? tree path) (node? now path)) :
    ∃ left, Reaches now 40 [] order.place.path left here := by
  obtain ⟨part,led,stands,within⟩ := straight.way
  obtain ⟨left,reaches⟩ := reaches_of_walk led stands
  refine ⟨left,reaches.keeps fun path node found solid => ?_⟩
  obtain ⟨there,apart⟩ := within path node found
  cases confined path with
  | same same => exact same.trans there
  | opened _ _ absent _ => cases absent.symm.trans there
  | written _ _ _ only _ =>
      obtain ⟨content,file⟩ := only node there
      exact absurd file (solid content)
  | removed _ exported _ own there' other _ =>
      obtain rfl := Option.some.inj (there.symm.trans there')
      cases node with
      | directory => exact absurd rfl other
      | file content => exact absurd rfl (solid content)
      | link target => exact absurd own (apart target rfl _ exported _)

theorem Unlinked.of_confined (unlinked : Unlinked desk tree here)
    (confined : ∀ path, Confined desk order here path (node? tree path) (node? now path)) : Unlinked desk now here :=
  ⟨fun _ exported => (confined _).keeps_noLink (unlinked.shelves _ exported),
    fun _ exported _ member => (confined _).keeps_noLink (unlinked.files _ exported _ member)⟩

theorem safe_plain {entityType : String} (exported : entityType ∈ safeTypes desk.store) :
    entityType ≠ "" ∧ entityType ≠ "." ∧ entityType ≠ ".." :=
  segment_plain (Option.isNone_iff_eq_none.mp (List.mem_filter.mp exported).2)

variable {left : Nat} (reaches : Reaches now 40 [] order.place.path left here) (unlinked : Unlinked desk now here)
  {entityType : String} (exported : entityType ∈ safeTypes desk.store)

include reaches unlinked exported

theorem shelf_confined (path : Path) : Confined desk order here path (node? now path)
    (node? (FileCall.perform now (.ensure (order.place.path ++ [entityType]))) path) := by
  cases ensured : now.ensureDirectory (order.place.path ++ [entityType]) with
  | error problem =>
      simp only [FileCall.perform,ensured,leftovers_entry reaches]
      exact .refl
  | ok made =>
      simp only [FileCall.perform,ensured]
      obtain ⟨_,⟨_,rfl⟩ | ⟨absent,rfl⟩⟩ :=
        ensureDirectory_entry reaches (safe_plain exported) (unlinked.shelves _ exported) ensured
      · exact .refl
      · by_cases own : path = here ++ [entityType]
        · subst own
          exact .opened exported rfl absent (node?_put_self now _ (by simp))
        · exact .same (node?_put_other now _ own)

theorem file_confined {e : Entity} (member : e ∈ desk.store.list entityType) (path : Path) :
    Confined desk order here path (node? now path)
      (node? (FileCall.perform now (.write (order.place.path ++ [entityType] ++ [fileName e.uuid])
        (.text (Document.ofEntity order.stamp e).page))) path) := by
  by_cases inside : IsName entityType ∧ node? now (here ++ [entityType]) = some .directory
  · have inner := reaches.child inside.1 inside.2
    by_cases taken : node? now (here ++ [entityType] ++ [fileName e.uuid]) = some .directory
    · simp only [FileCall.perform,write_directory inner (fileName_name _) taken]
      exact .refl
    · have kept := unlinked.files _ exported _ member
      simp only [FileCall.perform,write_entry inner (fileName_name _) kept taken]
      by_cases own : path = here ++ [entityType] ++ [fileName e.uuid]
      · subst own
        exact .written exported member rfl (fileOnly_intro kept taken) (node?_put_self now _ (by simp))
      · exact .same (node?_put_other now _ own)
  · obtain ⟨problem,refused⟩ := write_through reaches (safe_plain exported) (unlinked.shelves _ exported)
      (fun named stands => inside ⟨named,stands⟩) (fileName e.uuid) (.text (Document.ofEntity order.stamp e).page)
    simp only [FileCall.perform,refused]
    exact .refl

theorem stale_confined (cleaning : order.clean = true) {name : String} (stale : Stale desk.store entityType name) (path : Path) :
    Confined desk order here path (node? now path)
      (node? (FileCall.perform now (.remove (order.place.path ++ [entityType] ++ [name]))) path) := by
  by_cases inside : IsName entityType ∧ node? now (here ++ [entityType]) = some .directory
  · have inner := reaches.child inside.1 inside.2
    cases gone : now.remove (order.place.path ++ [entityType] ++ [name]) with
    | error problem =>
        simp only [FileCall.perform,gone]
        exact .refl
    | ok removed =>
        simp only [FileCall.perform,gone]
        obtain ⟨rfl,node,there,other⟩ := remove_entry inner gone
        by_cases own : path = here ++ [entityType] ++ [name]
        · subst own
          exact .removed cleaning exported stale rfl there other (node?_drop_self now (by simp))
        · exact .same (node?_drop_other now own)
  · obtain ⟨problem,refused⟩ := remove_through reaches (safe_plain exported) (unlinked.shelves _ exported)
      (fun named stands => inside ⟨named,stands⟩) name
    simp only [FileCall.perform,refused]
    exact .refl

omit exported

-- One call changes what it names, or nothing.
theorem call_confined {call : FileCall} (allowed : ExportCall desk order call) (path : Path) :
    Confined desk order here path (node? now path) (node? (call.perform now) path) := by
  cases allowed with
  | shelf exported => exact shelf_confined reaches unlinked exported path
  | file exported member => exact file_confined reaches unlinked exported member path
  | stale cleaning exported stale => exact stale_confined reaches unlinked exported cleaning stale path

omit reaches unlinked

theorem Worked.confined_nodes (straight : Straight desk order tree here) {after : Tree} (worked : Worked desk order tree after)
    (path : Path) : Confined desk order here path (node? tree path) (node? after path) := by
  obtain ⟨calls,allowed,rfl⟩ := worked
  suffices run : ∀ now : Tree, (∀ path, Confined desk order here path (node? tree path) (node? now path)) →
      ∀ path, Confined desk order here path (node? tree path) (node? (calls.foldl FileCall.perform now) path) from
    run tree (fun _ => .refl) path
  induction calls with
  | nil => exact fun _ confined => confined
  | cons call rest ih =>
      intro now confined
      obtain ⟨first,others⟩ := List.forall_mem_cons.mp allowed
      obtain ⟨left,reaches⟩ := straight.reaches_confined confined
      have unlinked := straight.toUnlinked.of_confined confined
      exact ih others (call.perform now) fun path => (confined path).trans (call_confined reaches unlinked first path)

end Places

section Growth

variable {desk : Desk} {order : ExportOrder} {before after : Tree}

theorem ensure_opens (tree : Tree) (path : Path) : Opens tree (FileCall.perform tree (.ensure path)) path := by
  rw [FileCall.perform]
  split
  · rename_i ensured
    exact makeDirectories_opens ensured
  · exact madeAbove_opens path.length

theorem call_stays (idle : order.clean = false) {call : FileCall} (allowed : ExportCall desk order call) {path : Path}
    (stands : node? before path ≠ none) : node? (call.perform before) path ≠ none := by
  cases allowed with
  | shelf =>
      obtain ⟨node,stands⟩ := Option.ne_none_iff_exists'.mp stands
      rw [(ensure_opens before _).grows path node stands]
      exact Option.some_ne_none node
  | stale cleaning => cases idle.symm.trans cleaning
  | file =>
      rw [FileCall.perform]
      split
      · rename_i written wrote
        obtain ⟨place,rfl⟩ := write_put wrote
        by_cases own : path = place
        · by_cases root : path = []
          · rw [root]
            exact Option.some_ne_none _
          · rw [← own,node?_put_self before _ root]
            exact Option.some_ne_none _
        · rw [node?_put_other before _ own]
          exact stands
      · exact stands

theorem Worked.node_stays (idle : order.clean = false) (worked : Worked desk order before after) {path : Path}
    (stands : node? before path ≠ none) : node? after path ≠ none := by
  obtain ⟨calls,allowed,rfl⟩ := worked
  induction calls generalizing before with
  | nil => exact stands
  | cons call rest ih =>
      obtain ⟨first,others⟩ := List.forall_mem_cons.mp allowed
      exact ih (call_stays idle first stands) others

end Growth

-- An export as it is seen from its directory, from the tree in which that has been made. Directories
-- are made on the way to it; from there on all calls are at the directories of types with safe names
-- and at their files, and so is all that changes unless links stand in the way.
structure StaysInside (desk : Desk) (order : ExportOrder) (tree begun after : Tree) : Prop where
  above : ∀ path, node? begun path = node? tree path ∨ node? tree path = none ∧ node? begun path = some .directory ∧
    ∃ beginning, beginning <+: order.place.path ∧ begun.resolve true beginning = .ok path
  refused : ∀ problem, tree.ensureDirectory order.place.path = .error problem → after = begun
  calls : Worked desk order begun after
  within : ∀ here, Straight desk order begun here →
    ∀ path, Confined desk order here path (node? begun path) (node? after path)
  kept : order.clean = false → ∀ path, node? tree path ≠ none → node? after path ≠ none
  names : ∀ entityType ∈ safeTypes desk.store, Ordinary entityType

-- Exports stay inside their directory, and types with an unsafe name make no difference to them but
-- one warning for each.
theorem export_stays_inside {desk : Desk} (ordered : Table.Ordered desk.store) (order : ExportOrder) (tree : Tree) :
    StaysInside desk order tree (FileCall.perform tree (.ensure order.place.path)) (exportContent desk order tree).2 ∧
      (exportContent desk order tree).2 = (exportContent (guarded desk) order tree).2 ∧
      Alike (unsafeWarnings desk.store) (exportContent desk order tree).1 (exportContent (guarded desk) order tree).1 := by
  have opens := ensure_opens tree order.place.path
  have worked : Worked desk order _ _ := exportContent_works tree
  refine ⟨⟨fun path => ?_,fun problem refused => ?_,worked,fun _ straight => worked.confined_nodes straight,
    fun idle path stands => ?_,?_⟩,exportContent_guarded ordered order tree⟩
  · rcases opens path with same | ⟨absent,made,beginning,left,start,reaches⟩
    · exact .inl same
    · exact .inr ⟨absent,made,beginning,start,resolve_stands reaches⟩
  · simp only [exportContent,FileCall.perform,refused]
  · refine worked.node_stays idle ?_
    obtain ⟨node,stands⟩ := Option.ne_none_iff_exists'.mp stands
    rw [opens.grows path node stands]
    exact Option.some_ne_none node
  · exact fun entityType exported => safe_ordinary (List.mem_filter.mp exported).2

theorem export_stays_inside_cleaned :
    let page : Entity := Entity.blank "node" "page" "Home" ⟨List.replicate 32 1,by decide⟩
    let note : Entity := Entity.blank "../etc" "note" "Note" ⟨List.replicate 32 2,by decide⟩
    let desk : Desk := { store := [(note.ref,note),(page.ref,page)] }
    let order : ExportOrder := ⟨⟨"site",["site"]⟩,true,"2024-01-01T00:00:00Z"⟩
    let tree : Tree := [(["etc"],.directory),(["etc",fileName note.uuid],.file (.text "kept")),(["site"],.directory),
      (["site","node"],.directory),(["site","node",fileName note.uuid],.file (.text "old"))]
    Table.Ordered desk.store ∧ Straight desk order tree ["site"] ∧
      StaysInside desk order tree tree (exportContent desk order tree).2 ∧
      node? (exportContent desk order tree).2 ["etc",fileName note.uuid] = some (.file (.text "kept")) := by
  intro page note desk order tree
  have ordered : Table.Ordered desk.store := by
    refine List.pairwise_cons.mpr ⟨List.forall_mem_singleton.mpr ?_,List.pairwise_singleton _ _⟩
    decide
  have reaches : Reaches tree 40 [] order.place.path 40 ["site"] :=
    .enter ⟨by decide,by decide,by decide,by decide⟩ rfl (.done 40 _)
  have unlinked : ∀ row ∈ tree, ∀ target, row.2 ≠ .link target := by
    intro row member target
    simp only [tree,List.mem_cons,List.not_mem_nil,or_false] at member
    rcases member with rfl | rfl | rfl | rfl | rfl <;> exact fun odd => by cases odd
  have straight : Straight desk order tree ["site"] := by
    refine ⟨⟨fun _ _ => .of_rows unlinked _,fun _ _ _ _ => .of_rows unlinked _⟩,
      tree,resolve_stands reaches,rfl,fun path node found => ⟨found,fun target link => ?_⟩⟩
    exact absurd (found.trans (congrArg some link)) (NoLink.of_rows unlinked path target)
  have begun : FileCall.perform tree (.ensure order.place.path) = tree := by
    rw [FileCall.perform,ensureDirectory_stands reaches]
  have inside := (export_stays_inside ordered order tree).1
  rw [begun] at inside
  refine ⟨ordered,straight,inside,?_⟩
  cases inside.within ["site"] straight ["etc",fileName note.uuid] with
  | same same => exact same
  | opened _ own => exact absurd (List.cons.inj own).1 (by decide)
  | written _ _ own => exact absurd (List.cons.inj own).1 (by decide)
  | removed _ _ _ own => exact absurd (List.cons.inj own).1 (by decide)

-- Where a link stands for the directory of a type, an export writes outside of its own; and it makes
-- the directories above its own.
theorem export_leaves_directory :
    let page : Entity := Entity.blank "node" "page" "Home" ⟨List.replicate 32 1,by decide⟩
    let source : Desk := { store := [(page.ref,page)] }
    let order : ExportOrder := ⟨⟨"site",["site"]⟩,false,"2024-01-01T00:00:00Z"⟩
    let tree : Tree := [(["elsewhere"],.directory),(["elsewhere",fileName page.uuid],.file (.text "kept")),
      (["site"],.directory),(["site","node"],.link "../elsewhere")]
    let deep : ExportOrder := ⟨⟨"a/b",["a","b"]⟩,false,"2024-01-01T00:00:00Z"⟩
    ¬(∀ path, ¬["site"] <+: path → node? (exportContent source order tree).2 path = node? tree path) ∧
      ¬∀ path, ¬["a","b"] <+: path → node? (exportContent {} deep []).2 path = node? [] path := by
  intro page source order tree deep
  constructor
  · intro untouched
    have place : Reaches tree 40 [] order.place.path 40 ["site"] :=
      .enter ⟨by decide,by decide,by decide,by decide⟩ rfl (.done 40 _)
    have linked : Reaches tree 40 [] (order.place.child "node").path 39 ["elsewhere"] := by
      refine .enter ⟨by decide,by decide,by decide,by decide⟩ rfl ?_
      refine .follow ⟨by decide,by decide,by decide,by decide⟩ rfl (by decide +kernel) ?_
      exact .up (.enter ⟨by decide,by decide,by decide,by decide⟩ rfl (.done 39 _))
    have file : node? tree (["elsewhere"] ++ [fileName page.uuid]) = some (.file (.text "kept")) := by decide
    have unheld : (Document.ofEntity order.stamp page).isHeldBy "kept" = false := by decide
    have stale : ¬Tells tree ["elsewhere"] page := by
      rintro ⟨text,held,tells⟩
      cases file.symm.trans held
      exact absurd (tells order.stamp) (Bool.eq_false_iff.mp unheld)
    have run := @exportType_stale source order tree ["elsewhere"] 39 "node" page rfl rfl (by decide) rfl linked
      (fileOnly_file file) stale {}
    have types : source.store.types = ["node"] := by decide
    have exported : exportContent source order tree = (.ok (Report.count {} page.entityType),
        entered order.stamp tree ["elsewhere"] page) := by
      refine (exportContent_ok (ensureDirectory_stands place)).mpr ⟨rfl,?_⟩
      simp only [types,exportTypes,run]
    have written := entered_file order.stamp tree ["elsewhere"] page
    have kept := untouched (["elsewhere"] ++ [fileName page.uuid]) (by decide)
    rw [exported,written,file] at kept
    have text := Content.text.inj (Node.file.inj (Option.some.inj kept))
    exact absurd text (by decide +kernel)
  · intro untouched
    have outer : IsName "a" := ⟨by decide,by decide,by decide,by decide⟩
    have inner : IsName "b" := ⟨by decide,by decide,by decide,by decide⟩
    have lost : resolve [] false ["a","b"] = .error .notFound := by
      rw [resolve,walk,if_neg (by decide),if_neg (by decide),if_neg (by decide)]
      rfl
    have missing : makeDirectory [] ["a","b"] = .error .notFound := by
      rw [makeDirectory,placeFor,lost]
      rfl
    have upper : makeDirectory [] ["a"] = .ok [(["a"],.directory)] := makeDirectory_new (.done 40 []) outer rfl
    have lower : makeDirectory [(["a"],.directory)] ["a","b"] = .ok [(["a"],.directory),(["a","b"],.directory)] :=
      makeDirectory_new (.enter outer rfl (.done 40 ["a"])) inner rfl
    have made : ensureDirectory [] deep.place.path = .ok [(["a"],.directory),(["a","b"],.directory)] := by
      change makeDirectories [] ["a","b"] 2 = _
      rw [makeDirectories,missing]
      change (makeDirectories [] ["a"] 1 >>= _) = _
      rw [makeDirectories,upper]
      dsimp only [bind,Except.bind]
      rw [lower]
      rfl
    have exported : exportContent {} deep [] = (.ok {},[(["a"],.directory),(["a","b"],.directory)]) :=
      (exportContent_ok made).mpr ⟨rfl,rfl⟩
    have kept := untouched ["a"] (by decide)
    rw [exported] at kept
    cases kept

end Redline.Exchange
