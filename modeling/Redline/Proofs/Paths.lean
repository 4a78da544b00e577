import Redline.Files.Tree

namespace Redline.Files.Tree

def IsName (name : String) : Prop :=
  name ≠ "" ∧ name ≠ "." ∧ name ≠ ".." ∧ name.utf8ByteSize ≤ greatestName

-- A path that leads from one directory to another one, by so many links at most and with so many
-- left over.
inductive Reaches (tree : Tree) : Nat → Path → Path → Nat → Path → Prop where
  | done (links : Nat) (current : Path) : Reaches tree links current [] links current
  | stay {name : String} (dot : name = "" ∨ name = ".") (rest : Reaches tree links current path left here) :
      Reaches tree links current (name :: path) left here
  | up (rest : Reaches tree links current.dropLast path left here) : Reaches tree links current (".." :: path) left here
  | enter {name : String} (plain : IsName name) (stands : node? tree (current ++ [name]) = some .directory)
      (rest : Reaches tree links (current ++ [name]) path left here) : Reaches tree links current (name :: path) left here
  | follow {name target : String} (plain : IsName name) (stands : node? tree (current ++ [name]) = some (.link target))
      (relative : ¬target.startsWith "/" = true) (rest : Reaches tree links current (names target ++ path) left here) :
      Reaches tree (links + 1) current (name :: path) left here

section Steps

variable {tree : Tree} {followLast : Bool} {links : Nat} {current : Path} {name : String} {rest : Path}

theorem walk_stay (dot : name = "" ∨ name = ".") :
    walk tree followLast links current (name :: rest) = walk tree followLast links current rest := by
  rw [walk,if_pos dot]

theorem walk_up : walk tree followLast links current (".." :: rest) = walk tree followLast links current.dropLast rest := by
  rw [walk,if_neg (by decide),if_pos rfl]

theorem walk_enter (plain : IsName name) (stands : node? tree (current ++ [name]) = some .directory) :
    walk tree followLast links current (name :: rest) = walk tree followLast links (current ++ [name]) rest := by
  obtain ⟨filled,noDot,noDots,short⟩ := plain
  rw [walk,if_neg (not_or.mpr ⟨filled,noDot⟩),if_neg noDots,if_neg (Nat.not_lt.mpr short)]
  simp only [stands]

theorem walk_follow {target : String} (plain : IsName name) (stands : node? tree (current ++ [name]) = some (.link target))
    (relative : ¬target.startsWith "/" = true) (on : rest ≠ [] ∨ followLast = true) :
    walk tree followLast (links + 1) current (name :: rest) =
      walk tree followLast links current (names target ++ rest) := by
  obtain ⟨filled,noDot,noDots,short⟩ := plain
  have onward : ¬(rest.isEmpty && !followLast) = true := by
    rcases on with more | follow
    · simp [more]
    · simp [follow]
  rw [walk,if_neg (not_or.mpr ⟨filled,noDot⟩),if_neg noDots,if_neg (Nat.not_lt.mpr short)]
  simp only [stands]
  rw [if_neg onward,if_neg relative]

theorem walk_last (plain : IsName name)
    (kept : followLast = true → ∀ target, node? tree (current ++ [name]) ≠ some (.link target)) :
    walk tree followLast links current [name] = .ok (current ++ [name]) := by
  obtain ⟨filled,noDot,noDots,short⟩ := plain
  rw [walk,if_neg (not_or.mpr ⟨filled,noDot⟩),if_neg noDots,if_neg (Nat.not_lt.mpr short)]
  cases stands : node? tree (current ++ [name]) with
  | none => simp only [stands,List.isEmpty_nil,if_true]
  | some node =>
      cases node with
      | directory => simp only [stands,walk]
      | file => simp only [stands,List.isEmpty_nil,if_true]
      | link target =>
          cases followLast with
          | false => simp only [stands,List.isEmpty_nil,Bool.not_false,Bool.and_self,if_true]
          | true => exact absurd stands (kept rfl target)

theorem walk_name {here : Path} (solid : ¬(name = "" ∨ name = ".")) (noDots : name ≠ "..")
    (led : walk tree true links current (name :: rest) = .ok here) (stands : node? tree here = some .directory) :
    IsName name ∧ (node? tree (current ++ [name]) = some .directory ∨ ∃ target below, links = below + 1 ∧
      node? tree (current ++ [name]) = some (.link target) ∧ ¬target.startsWith "/" = true) := by
  rw [walk,if_neg solid,if_neg noDots] at led
  split at led
  · cases led
  · rename_i short
    obtain ⟨filled,noDot⟩ := not_or.mp solid
    refine ⟨⟨filled,noDot,noDots,Nat.not_lt.mp short⟩,?_⟩
    cases entry : node? tree (current ++ [name]) with
    | none =>
        simp only [entry] at led
        split at led
        · cases led
          rw [entry] at stands
          cases stands
        · cases led
    | some node =>
        cases node with
        | directory => exact .inl rfl
        | file content =>
            simp only [entry] at led
            split at led
            · cases led
              rw [entry] at stands
              cases stands
            · cases led
        | link target =>
            simp only [entry,Bool.not_true,Bool.and_false,Bool.false_eq_true,if_false] at led
            cases links with
            | zero => cases led
            | succ below =>
                simp only at led
                split at led
                · cases led
                · rename_i relative
                  exact .inr ⟨target,below,rfl,rfl,relative⟩

end Steps

section Reaching

theorem reaches_of_walk {tree : Tree} {links : Nat} {current path here : Path}
    (led : walk tree true links current path = .ok here) (stands : node? tree here = some .directory) :
    ∃ left, Reaches tree links current path left here := by
  -- Each link that is followed leaves fewer, and each other name leaves a shorter path.
  induction links using Nat.strongRecOn generalizing current path with
  | ind links fewer =>
      induction path generalizing current with
      | nil =>
          rw [Tree.walk] at led
          cases led
          exact ⟨links,.done links _⟩
      | cons name rest shorter =>
          by_cases dot : name = "" ∨ name = "."
          · rw [walk_stay dot] at led
            obtain ⟨left,goes⟩ := shorter led
            exact ⟨left,.stay dot goes⟩
          by_cases dots : name = ".."
          · subst dots
            rw [walk_up] at led
            obtain ⟨left,goes⟩ := shorter led
            exact ⟨left,.up goes⟩
          obtain ⟨plain,directory | ⟨target,below,rfl,link,relative⟩⟩ := walk_name dot dots led stands
          · rw [walk_enter plain directory] at led
            obtain ⟨left,goes⟩ := shorter led
            exact ⟨left,.enter plain directory goes⟩
          · rw [walk_follow plain link relative (.inr rfl)] at led
            obtain ⟨left,goes⟩ := fewer below (Nat.lt_succ_self below) led
            exact ⟨left,.follow plain link relative goes⟩

-- Directories and links stay as they are.
def Keeps (tree kept : Tree) : Prop :=
  ∀ path node, node? tree path = some node → (∀ content, node ≠ .file content) → node? kept path = some node

-- Nothing is taken away.
def Grows (tree grown : Tree) : Prop := ∀ path node, node? tree path = some node → node? grown path = some node

theorem Grows.keeps {tree grown : Tree} (grows : Grows tree grown) : Keeps tree grown :=
  fun path node stands _ => grows path node stands

theorem Reaches.keeps {tree kept : Tree} {links left : Nat} {current path here : Path}
    (reaches : Reaches tree links current path left here) (keeps : Keeps tree kept) :
    Reaches kept links current path left here := by
  induction reaches with
  | done links current => exact .done links current
  | stay dot _ ih => exact .stay dot ih
  | up _ ih => exact .up ih
  | enter plain stands _ ih => exact .enter plain (keeps _ _ stands fun _ odd => by cases odd) ih
  | follow plain stands relative _ ih => exact .follow plain (keeps _ _ stands fun _ odd => by cases odd) relative ih

theorem Reaches.grows {tree grown : Tree} {links left : Nat} {current path here : Path}
    (reaches : Reaches tree links current path left here) (grows : Grows tree grown) :
    Reaches grown links current path left here := reaches.keeps grows.keeps

theorem Reaches.walk_append {tree : Tree} {links left : Nat} {current path here : Path}
    (reaches : Reaches tree links current path left here) (followLast : Bool) (rest : Path)
    (on : rest ≠ [] ∨ followLast = true) :
    walk tree followLast links current (path ++ rest) = Tree.walk tree followLast left here rest := by
  have further (path : Path) : path ++ rest ≠ [] ∨ followLast = true := by
    rcases on with more | follow
    · exact .inl fun nothing => more (List.append_eq_nil_iff.mp nothing).2
    · exact .inr follow
  induction reaches with
  | done => rfl
  | stay dot _ ih => rw [List.cons_append,walk_stay dot,ih]
  | up _ ih => rw [List.cons_append,walk_up,ih]
  | enter plain stands _ ih => rw [List.cons_append,walk_enter plain stands,ih]
  | follow plain stands relative _ ih =>
      rw [List.cons_append,walk_follow plain stands relative (further _),← List.append_assoc,ih]

theorem Reaches.child {tree : Tree} {links left : Nat} {current path here : Path}
    (reaches : Reaches tree links current path left here) {name : String} (plain : IsName name)
    (stands : node? tree (here ++ [name]) = some .directory) :
    Reaches tree links current (path ++ [name]) left (here ++ [name]) := by
  induction reaches with
  | done links current => exact .enter plain stands (.done links _)
  | stay dot _ ih => exact .stay dot (ih stands)
  | up _ ih => exact .up (ih stands)
  | enter outer above _ ih => exact .enter outer above (ih stands)
  | follow outer link relative _ ih =>
      have goes := ih stands
      rw [List.append_assoc] at goes
      exact .follow outer link relative goes

-- A directory in a directory and so on, up from the root.
def Rooted (tree : Tree) (path : Path) : Prop := ∀ n, node? tree (path.take n) = some .directory

theorem Rooted.root (tree : Tree) : Rooted tree [] := by
  intro n
  rw [List.take_nil]
  rfl

theorem Rooted.node_directory {tree : Tree} {path : Path} (rooted : Rooted tree path) : node? tree path = some .directory := by
  have whole := rooted path.length
  rwa [List.take_length] at whole

theorem Rooted.dropLast {tree : Tree} {path : Path} (rooted : Rooted tree path) : Rooted tree path.dropLast := by
  intro n
  rw [List.dropLast_eq_take,List.take_take]
  exact rooted _

theorem Rooted.enter {tree : Tree} {path : Path} (rooted : Rooted tree path) {name : String}
    (stands : node? tree (path ++ [name]) = some .directory) : Rooted tree (path ++ [name]) := by
  intro n
  by_cases inside : n ≤ path.length
  · rw [List.take_append_of_le_length inside]
    exact rooted n
  · rw [List.take_of_length_le (by rw [List.length_append,List.length_singleton]; omega)]
    exact stands

theorem Reaches.rooted_here {tree : Tree} {links left : Nat} {current path here : Path}
    (reaches : Reaches tree links current path left here) (rooted : Rooted tree current) : Rooted tree here := by
  induction reaches with
  | done => exact rooted
  | stay _ _ ih => exact ih rooted
  | up _ ih => exact ih rooted.dropLast
  | enter _ stands _ ih => exact ih (rooted.enter stands)
  | follow _ _ _ _ ih => exact ih rooted

theorem Reaches.walk_unfollowed {tree : Tree} {links left : Nat} {current path here : Path}
    (reaches : Reaches tree links current path left here) (rooted : Rooted tree current) :
    ∃ place node, Tree.walk tree false links current path = .ok place ∧ node? tree place.dropLast = some .directory ∧
      node? tree place = some node := by
  induction reaches with
  | done links current => exact ⟨current,.directory,by rw [Tree.walk],rooted.dropLast.node_directory,rooted.node_directory⟩
  | stay dot _ ih => rw [walk_stay dot]; exact ih rooted
  | up _ ih => rw [walk_up]; exact ih rooted.dropLast
  | enter plain stands _ ih => rw [walk_enter plain stands]; exact ih (rooted.enter stands)
  | @follow current links path left here name target plain stands relative _ ih =>
      cases path with
      | nil =>
          refine ⟨current ++ [name],.link target,walk_last plain (fun odd => by cases odd),?_,stands⟩
          rw [List.dropLast_concat]
          exact rooted.node_directory
      | cons next rest =>
          rw [walk_follow plain stands relative (.inl (List.cons_ne_nil next rest))]
          exact ih rooted

end Reaching

section Standing

variable {tree : Tree} {path here : Path} {left : Nat} (reaches : Reaches tree 40 [] path left here)

include reaches

theorem resolve_stands : resolve tree true path = .ok here := by
  have goes := reaches.walk_append true [] (.inr rfl)
  rw [List.append_nil] at goes
  rw [resolve,goes,Tree.walk]

theorem look_stands : look tree true path = .ok .directory := by
  have directory := (reaches.rooted_here (.root tree)).node_directory
  simp only [look,resolve_stands reaches,bind,Except.bind,directory]
  rfl

theorem makeDirectory_stands : makeDirectory tree path = .error .occupied := by
  obtain ⟨place,node,led,above,stands⟩ := reaches.walk_unfollowed (.root tree)
  simp only [makeDirectory,placeFor,resolve,led,bind,Except.bind,above,pure,Except.pure,stands]
  rfl

theorem ensureDirectory_stands : ensureDirectory tree path = .ok tree := by
  unfold ensureDirectory
  cases path.length with
  | zero => rfl
  | succ above =>
      rw [makeDirectories,makeDirectory_stands reaches]
      simp only [isDirectory,look_stands reaches,if_true]

end Standing

end Redline.Files.Tree
