import Redline.Proofs.Nodes

namespace Redline.Files.Tree

section Making

theorem reaches_made {tree : Tree} {links : Nat} {current path place : Path} (rooted : Rooted tree current)
    (led : walk tree false links current path = .ok place) (absent : node? tree place = none) :
    ∃ left, Reaches (put tree place .directory) links current path left place := by
  have grows := grows_put .directory absent
  induction links using Nat.strongRecOn generalizing current path with
  | ind links fewer =>
      induction path generalizing current with
      | nil =>
          rw [Tree.walk] at led
          cases led
          cases absent.symm.trans rooted.node_directory
      | cons name rest shorter =>
          by_cases dot : name = "" ∨ name = "."
          · rw [walk_stay dot] at led
            obtain ⟨left,goes⟩ := shorter rooted led
            exact ⟨left,.stay dot goes⟩
          by_cases dots : name = ".."
          · subst dots
            rw [walk_up] at led
            obtain ⟨left,goes⟩ := shorter rooted.dropLast led
            exact ⟨left,.up goes⟩
          obtain ⟨filled,noDot⟩ := not_or.mp dot
          by_cases long : name.utf8ByteSize > greatestName
          · rw [walk,if_neg dot,if_neg dots,if_pos long] at led
            cases led
          have plain : IsName name := ⟨filled,noDot,dots,Nat.not_lt.mp long⟩
          cases entry : node? tree (current ++ [name]) with
          | none =>
              rw [walk,if_neg dot,if_neg dots,if_neg long] at led
              simp only [entry] at led
              split at led
              · rename_i last
                cases led
                obtain rfl := List.isEmpty_iff.mp last
                exact ⟨links,.enter plain (node?_put_self tree _ (by simp)) (.done links _)⟩
              · cases led
          | some node =>
              cases node with
              | directory =>
                  rw [walk_enter plain entry] at led
                  obtain ⟨left,goes⟩ := shorter (rooted.enter entry) led
                  exact ⟨left,.enter plain (grows _ _ entry) goes⟩
              | file content =>
                  rw [walk,if_neg dot,if_neg dots,if_neg long] at led
                  simp only [entry] at led
                  split at led
                  · cases led
                    cases absent.symm.trans entry
                  · cases led
              | link target =>
                  rw [walk,if_neg dot,if_neg dots,if_neg long] at led
                  simp only [entry] at led
                  split at led
                  · cases led
                    cases absent.symm.trans entry
                  cases links with
                  | zero => cases led
                  | succ below =>
                      simp only at led
                      split at led
                      · cases led
                      · rename_i relative
                        obtain ⟨left,goes⟩ := fewer below (Nat.lt_succ_self below) rooted led
                        exact ⟨left,.follow plain (grows _ _ entry) relative goes⟩

variable {tree made : Tree} {path : Path}

theorem makeDirectory_put (done : makeDirectory tree path = .ok made) : ∃ place,
    resolve tree false path = .ok place ∧ node? tree place = none ∧ made = put tree place .directory := by
  unfold makeDirectory placeFor at done
  cases led : resolve tree false path with
  | error problem =>
      rw [led] at done
      cases done
  | ok place =>
      simp only [led,bind,Except.bind] at done
      split at done
      · cases done
      · rename_i found above
        split at above
        · cases above
          split at done
          · cases done
          · rename_i absent
            exact ⟨place,rfl,absent,(Except.ok.inj done).symm⟩
        · cases above
        · cases above

theorem isDirectory_reaches (stands : isDirectory tree path = true) : ∃ left here, Reaches tree 40 [] path left here := by
  unfold isDirectory look at stands
  cases led : resolve tree true path with
  | error problem =>
      rw [led] at stands
      cases stands
  | ok here =>
      simp only [led,bind,Except.bind] at stands
      cases found : node? tree here with
      | none =>
          simp only [found] at stands
          cases stands
      | some node =>
          simp only [found] at stands
          cases node with
          | directory =>
              obtain ⟨left,reaches⟩ := reaches_of_walk led found
              exact ⟨left,here,reaches⟩
          | _ => cases stands

theorem ensureDirectory_reaches (ensured : ensureDirectory tree path = .ok made) :
    ∃ left here, Reaches made 40 [] path left here := by
  have fresh {tree : Tree} (done : makeDirectory tree path = .ok made) : ∃ left here, Reaches made 40 [] path left here := by
    obtain ⟨place,led,absent,rfl⟩ := makeDirectory_put done
    obtain ⟨left,reaches⟩ := reaches_made (.root tree) led absent
    exact ⟨left,place,reaches⟩
  unfold ensureDirectory at ensured
  cases size : path.length with
  | zero =>
      obtain rfl := List.length_eq_zero_iff.mp size
      exact ⟨40,[],.done 40 []⟩
  | succ above =>
      rw [size,makeDirectories] at ensured
      split at ensured
      · rename_i done
        cases ensured
        exact fresh done
      · cases outer : makeDirectories tree path.dropLast above with
        | error problem =>
            rw [outer] at ensured
            cases ensured
        | ok under =>
            simp only [outer,bind,Except.bind] at ensured
            split at ensured
            · rename_i done
              cases ensured
              exact fresh done
            · split at ensured
              · rename_i stands
                cases ensured
                exact isDirectory_reaches stands
              · cases ensured
      · split at ensured
        · rename_i stands
          cases ensured
          exact isDirectory_reaches stands
        · cases ensured

end Making

section Opening

variable {tree middle made : Tree} {path : Path}

-- Missing directories were made where beginnings of a path lead, and nothing else changed.
def Opens (tree made : Tree) (path : Path) : Prop :=
  ∀ place, node? made place = node? tree place ∨ node? tree place = none ∧ node? made place = some .directory ∧
    ∃ beginning left, beginning <+: path ∧ Reaches made 40 [] beginning left place

theorem Opens.refl : Opens tree tree path := fun _ => .inl rfl

theorem Opens.grows (opens : Opens tree made path) : Grows tree made := by
  intro place node stands
  rcases opens place with same | ⟨absent,_⟩
  · exact same.trans stands
  · cases absent.symm.trans stands

theorem Opens.trans (first : Opens tree middle path) (last : Opens middle made path) : Opens tree made path := by
  intro place
  rcases last place with same | ⟨absent,stands,led⟩
  · rcases first place with same' | ⟨absent,stands,beginning,left,inside,reaches⟩
    · exact .inl (same.trans same')
    · exact .inr ⟨absent,same.trans stands,beginning,left,inside,reaches.grows last.grows⟩
  · rcases first place with same | ⟨_,odd,_⟩
    · exact .inr ⟨same.symm.trans absent,stands,led⟩
    · cases absent.symm.trans odd

theorem Opens.of_dropLast (opens : Opens tree made path.dropLast) : Opens tree made path := by
  intro place
  rcases opens place with same | ⟨absent,stands,beginning,left,inside,reaches⟩
  · exact .inl same
  · exact .inr ⟨absent,stands,beginning,left,inside.trans (List.dropLast_prefix path),reaches⟩

theorem Opens.of_makeDirectory (done : makeDirectory tree path = .ok made) : Opens tree made path := by
  obtain ⟨place,led,absent,rfl⟩ := makeDirectory_put done
  obtain ⟨left,reaches⟩ := reaches_made (.root tree) led absent
  have filled : place ≠ [] := by
    rintro rfl
    cases absent.symm.trans (Rooted.root tree).node_directory
  intro other
  by_cases own : other = place
  · subst own
    exact .inr ⟨absent,node?_put_self tree _ filled,path,left,List.prefix_refl path,reaches⟩
  · exact .inl (node?_put_other tree _ own)

theorem makeDirectories_opens {above : Nat} (ensured : makeDirectories tree path above = .ok made) :
    Opens tree made path := by
  induction above generalizing tree path made with
  | zero =>
      cases ensured
      exact .refl
  | succ above ih =>
      rw [makeDirectories] at ensured
      split at ensured
      · rename_i done
        cases ensured
        exact .of_makeDirectory done
      · cases outer : makeDirectories tree path.dropLast above with
        | error problem =>
            rw [outer] at ensured
            cases ensured
        | ok under =>
            simp only [outer,bind,Except.bind] at ensured
            split at ensured
            · rename_i done
              cases ensured
              exact (ih outer).of_dropLast.trans (.of_makeDirectory done)
            · split at ensured
              · cases ensured
                exact (ih outer).of_dropLast
              · cases ensured
      · split at ensured
        · cases ensured
          exact .refl
        · cases ensured

theorem madeAbove_opens (above : Nat) : Opens tree (madeAbove tree path above) path := by
  induction above generalizing path with
  | zero => exact .refl
  | succ above ih =>
      rw [madeAbove]
      split
      · split
        · rename_i outer
          exact (makeDirectories_opens outer).of_dropLast
        · exact ih.of_dropLast
      · exact .refl

end Opening

end Redline.Files.Tree
