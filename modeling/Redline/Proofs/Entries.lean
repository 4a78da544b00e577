import Redline.Proofs.Making

namespace Redline.Files.Tree

section Entries

variable {tree : Tree} {path here : Path} {left : Nat} (reaches : Reaches tree 40 [] path left here) {name : String}

include reaches

theorem resolve_entry (plain : IsName name) (followLast : Bool) (kept : NoLink (node? tree (here ++ [name]))) :
    resolve tree followLast (path ++ [name]) = .ok (here ++ [name]) := by
  rw [resolve,reaches.walk_append followLast [name] (.inl (List.cons_ne_nil _ _)),walk_last plain]
  exact fun _ => kept

theorem look_entry (plain : IsName name) (followLast : Bool) {node : Node}
    (stands : node? tree (here ++ [name]) = some node) (kept : NoLink (some node)) :
    look tree followLast (path ++ [name]) = .ok node := by
  simp only [look,resolve_entry reaches plain followLast (stands ▸ kept),bind,Except.bind,stands]
  rfl

theorem list_entries : list tree path = .ok (children tree here) := by
  simp only [list,resolve_stands reaches,bind,Except.bind,(reaches.rooted_here (.root _)).node_directory]
  rfl

theorem readText_entry (plain : IsName name) {content : String}
    (file : node? tree (here ++ [name]) = some (.file (.text content))) : readText tree (path ++ [name]) = .ok content := by
  simp only [readText,look_entry reaches plain true file (.of_file _),bind,Except.bind]
  rfl

theorem readText_none (plain : IsName name) (absent : node? tree (here ++ [name]) = none) :
    readText tree (path ++ [name]) = .error .notFound := by
  simp only [readText,look,resolve_entry reaches plain true (absent ▸ .of_none),bind,Except.bind,absent]
  rfl

theorem readText_file? (plain : IsName name) (kept : NoLink (node? tree (here ++ [name]))) {content : String}
    (read : readText tree (path ++ [name]) = .ok content) : node? tree (here ++ [name]) = some (.file (.text content)) := by
  cases stands : node? tree (here ++ [name]) with
  | none => cases read.symm.trans (readText_none reaches plain stands)
  | some node =>
      simp only [readText,look_entry reaches plain true stands (stands ▸ kept),bind,Except.bind] at read
      cases node with
      | directory => cases read
      | link => cases read
      | file held =>
          cases held with
          | bytes => cases read
          | text held =>
              cases read
              rfl

theorem write_entry (plain : IsName name) (kept : NoLink (node? tree (here ++ [name])))
    (free : node? tree (here ++ [name]) ≠ some .directory) (content : Content) :
    write tree (path ++ [name]) content = .ok (put tree (here ++ [name]) (.file content)) := by
  have place := resolve_entry reaches plain true kept
  have parent := (reaches.rooted_here (.root _)).node_directory
  simp only [write,placeFor,place,bind,Except.bind,List.dropLast_concat,parent,pure,Except.pure]

theorem write_directory (plain : IsName name) (stands : node? tree (here ++ [name]) = some .directory) (content : Content) :
    write tree (path ++ [name]) content = .error .isDirectory := by
  have place := resolve_entry reaches plain true (stands ▸ .of_directory)
  have parent := (reaches.rooted_here (.root _)).node_directory
  simp only [write,placeFor,place,bind,Except.bind,List.dropLast_concat,parent,pure,Except.pure,stands]
  rfl

theorem remove_file (plain : IsName name) {content : Content} (file : node? tree (here ++ [name]) = some (.file content)) :
    remove tree (path ++ [name]) = .ok (drop tree (here ++ [name])) := by
  simp only [remove,resolve_entry reaches plain false (file ▸ .of_file content),bind,Except.bind,file]
  rfl

theorem remove_entry {removed : Tree} (done : remove tree (path ++ [name]) = .ok removed) :
    removed = drop tree (here ++ [name]) ∧ ∃ node, node? tree (here ++ [name]) = some node ∧ node ≠ .directory := by
  have rooted := reaches.rooted_here (.root _)
  unfold remove resolve at done
  rw [reaches.walk_append false [name] (.inl (List.cons_ne_nil _ _))] at done
  by_cases dot : name = "" ∨ name = "."
  · rw [walk_stay dot,walk] at done
    simp only [bind,Except.bind,rooted.node_directory] at done
    cases done
  by_cases dots : name = ".."
  · rw [dots,walk_up,walk] at done
    simp only [bind,Except.bind,rooted.dropLast.node_directory] at done
    cases done
  by_cases long : name.utf8ByteSize > greatestName
  · rw [walk,if_neg dot,if_neg dots,if_pos long] at done
    cases done
  have plain : IsName name := ⟨(not_or.mp dot).1,(not_or.mp dot).2,dots,Nat.not_lt.mp long⟩
  rw [walk_last plain (fun odd => by cases odd)] at done
  simp only [bind,Except.bind] at done
  split at done
  · cases done
  · rename_i node other stands
    cases done
    exact ⟨rfl,node,stands,other⟩
  · cases done

-- A name that is too long leads nowhere.
theorem resolve_long (solid : name ≠ "" ∧ name ≠ "." ∧ name ≠ "..") (long : name.utf8ByteSize > greatestName)
    (followLast : Bool) (rest : Path) : resolve tree followLast (path ++ name :: rest) = .error .nameTooLong := by
  rw [resolve,reaches.walk_append followLast _ (.inl (List.cons_ne_nil _ _)),walk,
    if_neg (not_or.mpr ⟨solid.1,solid.2.1⟩),if_neg solid.2.2,if_pos long]

theorem ensureDirectory_long (solid : name ≠ "" ∧ name ≠ "." ∧ name ≠ "..") (long : name.utf8ByteSize > greatestName) :
    ensureDirectory tree (path ++ [name]) = .error .nameTooLong := by
  have lost (followLast : Bool) := resolve_long reaches solid long followLast []
  have unmade : makeDirectory tree (path ++ [name]) = .error .nameTooLong := by
    simp only [makeDirectory,placeFor,lost,bind,Except.bind]
  have absent : isDirectory tree (path ++ [name]) = false := by
    simp only [isDirectory,look,lost,bind,Except.bind]
  rw [ensureDirectory,List.length_append,List.length_singleton,makeDirectories,unmade]
  simp only [absent,Bool.false_eq_true,if_false]

theorem makeDirectory_new (plain : IsName name) (absent : node? tree (here ++ [name]) = none) :
    makeDirectory tree (path ++ [name]) = .ok (put tree (here ++ [name]) .directory) := by
  have place := resolve_entry reaches plain false (absent ▸ .of_none)
  have parent := (reaches.rooted_here (.root _)).node_directory
  simp only [makeDirectory,placeFor,place,bind,Except.bind,List.dropLast_concat,parent,pure,Except.pure,absent]

theorem ensureDirectory_new (plain : IsName name) (absent : node? tree (here ++ [name]) = none) :
    ensureDirectory tree (path ++ [name]) = .ok (put tree (here ++ [name]) .directory) := by
  rw [ensureDirectory,List.length_append,List.length_singleton,makeDirectories,makeDirectory_new reaches plain absent]

theorem ensureDirectory_file (plain : IsName name) {content : Content}
    (file : node? tree (here ++ [name]) = some (.file content)) :
    ensureDirectory tree (path ++ [name]) = .error .occupied := by
  have place := resolve_entry reaches plain false (file ▸ .of_file content)
  have parent := (reaches.rooted_here (.root _)).node_directory
  have unmade : makeDirectory tree (path ++ [name]) = .error .occupied := by
    simp only [makeDirectory,placeFor,place,bind,Except.bind,List.dropLast_concat,parent,pure,Except.pure,file]
    rfl
  have other : isDirectory tree (path ++ [name]) = false := by
    simp only [isDirectory,look_entry reaches plain true file (.of_file content)]
  rw [ensureDirectory,List.length_append,List.length_singleton,makeDirectories,unmade]
  simp only [other,Bool.false_eq_true,if_false]

omit reaches in
theorem write_put {content : Content} {written : Tree} (wrote : write tree path content = .ok written) :
    ∃ place, written = put tree place (.file content) := by
  unfold write at wrote
  cases led : placeFor tree true path with
  | error problem =>
      rw [led] at wrote
      cases wrote
  | ok place =>
      simp only [led,bind,Except.bind] at wrote
      split at wrote
      · cases wrote
      · exact ⟨place,(Except.ok.inj wrote).symm⟩

theorem resolve_through (solid : name ≠ "" ∧ name ≠ "." ∧ name ≠ "..") (kept : NoLink (node? tree (here ++ [name])))
    (closed : IsName name → node? tree (here ++ [name]) ≠ some .directory) (followLast : Bool) (next : String) :
    ∃ problem, resolve tree followLast (path ++ [name] ++ [next]) = .error problem := by
  rw [List.append_assoc,List.singleton_append]
  by_cases long : name.utf8ByteSize > greatestName
  · exact ⟨_,resolve_long reaches solid long followLast [next]⟩
  rw [resolve,reaches.walk_append followLast _ (.inl (List.cons_ne_nil _ _)),walk,
    if_neg (not_or.mpr ⟨solid.1,solid.2.1⟩),if_neg solid.2.2,if_neg long]
  cases stands : node? tree (here ++ [name]) with
  | none => exact ⟨.notFound,by simp only [stands]; rfl⟩
  | some node =>
      cases node with
      | directory => exact absurd stands (closed ⟨solid.1,solid.2.1,solid.2.2,Nat.not_lt.mp long⟩)
      | file content => exact ⟨.notDirectory,by simp only [stands]; rfl⟩
      | link target => exact absurd stands (kept target)

theorem write_through (solid : name ≠ "" ∧ name ≠ "." ∧ name ≠ "..") (kept : NoLink (node? tree (here ++ [name])))
    (closed : IsName name → node? tree (here ++ [name]) ≠ some .directory) (next : String) (content : Content) :
    ∃ problem, write tree (path ++ [name] ++ [next]) content = .error problem := by
  obtain ⟨problem,lost⟩ := resolve_through reaches solid kept closed true next
  refine ⟨problem,?_⟩
  simp only [write,placeFor,lost,bind,Except.bind]

theorem remove_through (solid : name ≠ "" ∧ name ≠ "." ∧ name ≠ "..") (kept : NoLink (node? tree (here ++ [name])))
    (closed : IsName name → node? tree (here ++ [name]) ≠ some .directory) (next : String) :
    ∃ problem, remove tree (path ++ [name] ++ [next]) = .error problem := by
  obtain ⟨problem,lost⟩ := resolve_through reaches solid kept closed false next
  refine ⟨problem,?_⟩
  simp only [remove,lost,bind,Except.bind]

-- Nothing is missing above an entry of a directory, so a failure to make one leaves nothing behind.
theorem leftovers_entry (name : String) : leftovers tree (path ++ [name]) = tree := by
  have rooted := reaches.rooted_here (.root _)
  have above : makeDirectory tree (path ++ [name]) ≠ .error .notFound := by
    intro missing
    unfold makeDirectory placeFor resolve at missing
    rw [reaches.walk_append false [name] (.inl (List.cons_ne_nil _ _))] at missing
    by_cases dot : name = "" ∨ name = "."
    · rw [walk_stay dot,walk] at missing
      simp only [bind,Except.bind,rooted.dropLast.node_directory,pure,Except.pure,rooted.node_directory] at missing
      cases missing
    by_cases dots : name = ".."
    · rw [dots,walk_up,walk] at missing
      simp only [bind,Except.bind,rooted.dropLast.dropLast.node_directory,pure,Except.pure,rooted.dropLast.node_directory] at missing
      cases missing
    by_cases long : name.utf8ByteSize > greatestName
    · rw [walk,if_neg dot,if_neg dots,if_pos long] at missing
      cases missing
    rw [walk_last ⟨(not_or.mp dot).1,(not_or.mp dot).2,dots,Nat.not_lt.mp long⟩ (fun odd => by cases odd)] at missing
    simp only [bind,Except.bind,List.dropLast_concat,rooted.node_directory,pure,Except.pure] at missing
    split at missing <;> cases missing
  rw [leftovers,List.length_append,List.length_singleton,madeAbove]
  split
  · rename_i missing
    exact absurd missing above
  · rfl

theorem ensureDirectory_entry (solid : name ≠ "" ∧ name ≠ "." ∧ name ≠ "..") (kept : NoLink (node? tree (here ++ [name])))
    {made : Tree} (ensured : ensureDirectory tree (path ++ [name]) = .ok made) : IsName name ∧
      (node? tree (here ++ [name]) = some .directory ∧ made = tree ∨
        node? tree (here ++ [name]) = none ∧ made = put tree (here ++ [name]) .directory) := by
  by_cases long : name.utf8ByteSize > greatestName
  · cases ensured.symm.trans (ensureDirectory_long reaches solid long)
  have plain : IsName name := ⟨solid.1,solid.2.1,solid.2.2,Nat.not_lt.mp long⟩
  refine ⟨plain,?_⟩
  cases stands : node? tree (here ++ [name]) with
  | none =>
      cases ensured.symm.trans (ensureDirectory_new reaches plain stands)
      exact .inr ⟨rfl,rfl⟩
  | some node =>
      cases node with
      | directory =>
          cases ensured.symm.trans (ensureDirectory_stands (reaches.child plain stands))
          exact .inl ⟨rfl,rfl⟩
      | file content => cases ensured.symm.trans (ensureDirectory_file reaches plain stands)
      | link target => exact absurd stands (kept target)

end Entries

section Work

variable {tree : Tree} {path here : Path} {left : Nat} (reaches : Reaches tree 40 [] path left here)
  (vacant : Vacant tree here) (rows : Tree)

include vacant in
theorem node?_child (name : String) : node? (tree ++ below here rows) (here ++ [name]) = List.lookup [name] rows :=
  node?_below vacant rows (List.cons_ne_nil _ _)

include vacant in
theorem node?_grandchild (directory name : String) :
    node? (tree ++ below here rows) (here ++ [directory] ++ [name]) = List.lookup [directory,name] rows := by
  rw [List.append_assoc]
  exact node?_below vacant rows (List.cons_ne_nil _ _)

include reaches in
theorem reaches_below : Reaches (tree ++ below here rows) 40 [] path left here :=
  reaches.grows (grows_append tree (below here rows))

include reaches vacant

theorem reaches_child {directory : String} (outer : IsName directory)
    (stands : List.lookup [directory] rows = some .directory) :
    Reaches (tree ++ below here rows) 40 [] (path ++ [directory]) left (here ++ [directory]) :=
  (reaches_below reaches rows).child outer ((node?_child vacant rows directory).trans stands)

theorem list_here (inner : ∀ row ∈ rows, row.1 ≠ []) :
    list (tree ++ below here rows) path = .ok (children rows []) := by
  have names := children_below vacant inner []
  rw [List.append_nil] at names
  rw [list_entries (reaches_below reaches rows),names]

theorem look_child {name : String} (plain : IsName name) (followLast : Bool)
    (stands : List.lookup [name] rows = some .directory) :
    look (tree ++ below here rows) followLast (path ++ [name]) = .ok .directory :=
  look_entry (reaches_below reaches rows) plain followLast ((node?_child vacant rows name).trans stands) .of_directory

theorem list_child {name : String} (plain : IsName name) (stands : List.lookup [name] rows = some .directory)
    (inner : ∀ row ∈ rows, row.1 ≠ []) :
    list (tree ++ below here rows) (path ++ [name]) = .ok (children rows [name]) := by
  rw [list_entries (reaches_child reaches vacant rows plain stands),children_below vacant inner]

theorem ensureDirectory_child {name : String} (plain : IsName name) (absent : List.lookup [name] rows = none) :
    ensureDirectory (tree ++ below here rows) (path ++ [name]) =
      .ok (tree ++ below here (rows ++ [([name],.directory)])) := by
  rw [ensureDirectory_new (reaches_below reaches rows) plain ((node?_child vacant rows name).trans absent),
    put_below vacant rows (List.cons_ne_nil _ _),put_new _ absent]

theorem ensureDirectory_held {name : String} (plain : IsName name) (stands : List.lookup [name] rows = some .directory) :
    ensureDirectory (tree ++ below here rows) (path ++ [name]) = .ok (tree ++ below here rows) :=
  ensureDirectory_stands (reaches_child reaches vacant rows plain stands)

section Files

variable {directory name : String} (outer : IsName directory) (plain : IsName name)

include outer plain

theorem look_grandchild (followLast : Bool) (stands : List.lookup [directory] rows = some .directory) {content : Content}
    (file : List.lookup [directory,name] rows = some (.file content)) :
    look (tree ++ below here rows) followLast (path ++ [directory] ++ [name]) = .ok (.file content) :=
  look_entry (reaches_child reaches vacant rows outer stands) plain followLast
    ((node?_grandchild vacant rows directory name).trans file) (.of_file content)

variable (stands : List.lookup [directory] rows = some .directory)

include stands

theorem readText_grandchild {content : String} (file : List.lookup [directory,name] rows = some (.file (.text content))) :
    readText (tree ++ below here rows) (path ++ [directory] ++ [name]) = .ok content :=
  readText_entry (reaches_child reaches vacant rows outer stands) plain
    ((node?_grandchild vacant rows directory name).trans file)

theorem readText_absent (absent : List.lookup [directory,name] rows = none) :
    readText (tree ++ below here rows) (path ++ [directory] ++ [name]) = .error .notFound :=
  readText_none (reaches_child reaches vacant rows outer stands) plain
    ((node?_grandchild vacant rows directory name).trans absent)

theorem write_grandchild (free : ∀ node, List.lookup [directory,name] rows = some node → ∃ content, node = .file content)
    (content : Content) : write (tree ++ below here rows) (path ++ [directory] ++ [name]) content =
      .ok (tree ++ below here (put rows [directory,name] (.file content))) := by
  have known := node?_grandchild vacant rows directory name
  have fits := reaches_child reaches vacant rows outer stands
  rw [write_entry fits plain,List.append_assoc]
  · exact congrArg Except.ok (put_below vacant rows (List.cons_ne_nil _ _) _)
  · intro target link
    obtain ⟨_,odd⟩ := free _ (known.symm.trans link)
    cases odd
  · intro inside
    obtain ⟨_,odd⟩ := free _ (known.symm.trans inside)
    cases odd

theorem remove_grandchild {content : Content} (file : List.lookup [directory,name] rows = some (.file content)) :
    remove (tree ++ below here rows) (path ++ [directory] ++ [name]) =
      .ok (tree ++ below here (drop rows [directory,name])) := by
  rw [remove_file (reaches_child reaches vacant rows outer stands) plain
    ((node?_grandchild vacant rows directory name).trans file),List.append_assoc]
  exact congrArg Except.ok (drop_below vacant rows (List.cons_ne_nil _ _))

end Files

theorem readText_nowhere {directory name : String} (outer : IsName directory)
    (absent : List.lookup [directory] rows = none) :
    readText (tree ++ below here rows) (path ++ [directory] ++ [name]) = .error .notFound := by
  have goes := reaches.grows (grows_append tree (below here rows))
  have missing := node?_below vacant rows (List.cons_ne_nil directory [])
  obtain ⟨filled,noDot,noDots,short⟩ := outer
  have lost : resolve (tree ++ below here rows) true (path ++ [directory] ++ [name]) = .error .notFound := by
    rw [resolve,List.append_assoc,List.singleton_append,goes.walk_append true _ (.inl (List.cons_ne_nil _ _)),walk,
      if_neg (not_or.mpr ⟨filled,noDot⟩),if_neg noDots,if_neg (Nat.not_lt.mpr short)]
    simp only [missing,absent,List.isEmpty_cons,Bool.false_eq_true,if_false]
  simp only [readText,look,lost,bind,Except.bind]

end Work

end Redline.Files.Tree
