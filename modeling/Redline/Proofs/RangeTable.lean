import Redline.Proofs.DeletionRanges

namespace Redline.Markup

section Table
variable {name : List Char}

theorem takeEnd_others {start : Placed} (other : start.2 ≠ name) (ends : List Placed) :
    takeEnd start (ends.filter (·.2 ≠ name)) = (takeEnd start ends).map (·.filter (·.2 ≠ name)) := by
  induction ends with
  | nil => rfl
  | cons final rest ih =>
      by_cases own : final.2 = name
      · have misses : ¬(final.2 = start.2 ∧ start.1 ≤ final.1) := by
          rintro ⟨same,_⟩
          exact other (same.symm.trans own)
        rw [List.filter_cons_of_neg (by simpa using own),ih,takeEnd,if_neg misses,Option.map_map]
        congr 1
        funext left
        simp [own]
      · rw [List.filter_cons_of_pos (by simpa using own),takeEnd,takeEnd]
        split
        · rfl
        · rw [ih,Option.map_map,Option.map_map]
          congr 1
          funext left
          simp [own]

theorem closableAmong_others {starts : List Placed} (others : ∀ start ∈ starts, start.2 ≠ name) (ends : List Placed) :
    closableAmong starts (ends.filter (·.2 ≠ name)) = closableAmong starts ends := by
  induction starts generalizing ends with
  | nil => rfl
  | cons start rest ih =>
      have later : ∀ other ∈ rest, other.2 ≠ name := fun other member => others other (List.mem_cons_of_mem _ member)
      rw [closableAmong,closableAmong,takeEnd_others (others start List.mem_cons_self)]
      cases takeEnd start ends with
      | none => simp only [Option.map_none]; rw [ih later]
      | some left => simp only [Option.map_some]; rw [ih later]

theorem takeEnd_own {start : Placed} {ends left : List Placed} (taken : takeEnd start ends = some left) :
    left.filter (·.2 ≠ start.2) = ends.filter (·.2 ≠ start.2) := by
  induction ends generalizing left with
  | nil => cases taken
  | cons final rest ih =>
      unfold takeEnd at taken
      split at taken
      · rename_i fits
        cases taken
        simp [fits.1]
      · obtain ⟨shorter,further,rfl⟩ := Option.map_eq_some_iff.mp taken
        rw [List.filter_cons,List.filter_cons,ih further]

theorem takeEnd_found {start final : Placed} {ends : List Placed} (member : final ∈ ends) (same : final.2 = start.2)
    (order : start.1 ≤ final.1) : ∃ left, takeEnd start ends = some left := by
  induction ends with
  | nil => cases member
  | cons first rest ih =>
      unfold takeEnd
      split
      · exact ⟨rest,rfl⟩
      · rename_i misses
        rcases List.mem_cons.mp member with rfl | later
        · exact absurd ⟨same,order⟩ misses
        · obtain ⟨left,taken⟩ := ih later
          exact ⟨first :: left,by rw [taken]; rfl⟩

-- The only start of its name takes its end and has an entry of its own in the table; the other
-- entries are the same without it.
theorem closableAmong_insert {before after ends : List Placed} {start final : Placed}
    (others : ∀ other ∈ before ++ after, other.2 ≠ start.2) (member : final ∈ ends) (same : final.2 = start.2)
    (order : start.1 ≤ final.1) : closableAmong (before ++ start :: after) ends =
      (closableAmong (before ++ after) ends).insertIdx before.length true := by
  induction before generalizing ends with
  | nil =>
      rw [List.nil_append] at others
      obtain ⟨left,taken⟩ := takeEnd_found member same order
      have rest : closableAmong after left = closableAmong after ends := by
        rw [← closableAmong_others others left,takeEnd_own taken,closableAmong_others others]
      simp only [List.nil_append,closableAmong,taken,rest]
      rfl
  | cons first before ih =>
      have later : ∀ other ∈ before ++ after, other.2 ≠ start.2 :=
        fun other there => others other (List.mem_cons_of_mem _ there)
      simp only [List.cons_append,closableAmong]
      cases taken : takeEnd first ends with
      | none =>
          simp only
          rw [ih later member]
          rfl
      | some left =>
          have apart : final.2 ≠ first.2 := by
            rw [same]
            exact (others first List.mem_cons_self).symm
          have left_ : final ∈ left := by
            have kept : final ∈ ends.filter (·.2 ≠ first.2) := List.mem_filter.mpr ⟨member,by simpa using apart⟩
            rw [← takeEnd_own taken] at kept
            exact (List.mem_filter.mp kept).1
          simp only
          rw [ih later left_]
          rfl

theorem closableAmong_length (starts ends : List Placed) : (closableAmong starts ends).length = starts.length := by
  induction starts generalizing ends with
  | nil => rfl
  | cons start rest ih =>
      unfold closableAmong
      split <;> rw [List.length_cons,ih,List.length_cons]

-- Only the order of the places matters.
theorem takeEnd_moved {place : Nat → Nat} (ordered : ∀ i j, place i ≤ place j ↔ i ≤ j) (start : Placed)
    (ends : List Placed) : takeEnd (start.map place id) (ends.map (·.map place id)) =
      (takeEnd start ends).map (·.map (·.map place id)) := by
  induction ends with
  | nil => rfl
  | cons final rest ih =>
      simp only [List.map_cons,takeEnd,Prod.map_fst,Prod.map_snd,id_eq,ordered,ih]
      split
      · rfl
      · rw [Option.map_map,Option.map_map]
        rfl

theorem closableAmong_moved {place : Nat → Nat} (ordered : ∀ i j, place i ≤ place j ↔ i ≤ j) (starts ends : List Placed) :
    closableAmong (starts.map (·.map place id)) (ends.map (·.map place id)) = closableAmong starts ends := by
  induction starts generalizing ends with
  | nil => rfl
  | cons start rest ih =>
      simp only [List.map_cons,closableAmong,takeEnd_moved ordered]
      cases takeEnd start ends with
      | none => simp only [Option.map_none]; rw [ih]
      | some left => simp only [Option.map_some]; rw [ih]

end Table

section Ranges
variable {name : List Char} {first last : Token} {pre mid post : List Token}

def Placed.shift (count : Nat) (boundary : Placed) : Placed := (count + boundary.1,boundary.2)

theorem shift_shift (count more : Nat) : Placed.shift count ∘ Placed.shift more = Placed.shift (count + more) := by
  funext boundary
  simp [Placed.shift,Nat.add_assoc]

theorem shift_at (count place : Nat) : Placed.shift count ∘ ((place,·) : List Char → Placed) = (count + place,·) := rfl

theorem placed_behind (pick : Boundaries → List (List Char)) (before later : List Token) :
    placed pick (before ++ later) = placed pick before ++ (placed pick later).map (Placed.shift before.length) := by
  rw [placed_append]
  congr 1
  rw [placed,List.map_flatMap,List.zipIdx_eq_map_add,List.flatMap_map]
  congr 1
  funext row
  cases row
  simp [Placed.shift,Function.comp_def]

theorem placed_nowhere {pick : Boundaries → List (List Char)} {tokens : List Token}
    (none_ : ∀ t ∈ tokens, pick t.boundaries = []) : placed pick tokens = [] := by
  rw [List.eq_nil_iff_forall_not_mem]
  rintro ⟨i,n⟩ member
  obtain ⟨t,there,own⟩ := mem_placed.mp member
  rw [none_ t (List.mem_of_getElem? there)] at own
  cases own

theorem placed_range (pick : Boundaries → List (List Char)) (free : ∀ t ∈ mid, pick t.boundaries = []) :
    placed pick (pre ++ first :: (mid ++ last :: post)) =
      placed pick pre ++ (pick first.boundaries).map (pre.length,·) ++
        (pick last.boundaries).map (pre.length + mid.length + 1,·) ++
        (placed pick post).map (Placed.shift (pre.length + mid.length + 2)) := by
  have one : ∀ t : Token, placed pick [t] = (pick t.boundaries).map (0,·) := by
    intro t
    simp [placed]
  have parts : pre ++ first :: (mid ++ last :: post) = pre ++ ([first] ++ (mid ++ ([last] ++ post))) := by simp
  rw [parts,placed_behind,placed_behind,placed_behind,placed_behind,placed_nowhere free,one,one]
  have final : pre.length + (1 + mid.length) = pre.length + mid.length + 1 := by omega
  have behind : pre.length + (1 + (mid.length + 1)) = pre.length + mid.length + 2 := by omega
  simp only [List.nil_append,List.map_append,List.map_map,List.append_assoc,List.length_singleton,shift_shift,
    shift_at,Nat.add_zero,final,behind]

theorem placed_others {pick : Boundaries → List (List Char)} {tokens : List Token}
    (absent : ∀ t ∈ tokens, name ∉ pick t.boundaries) : ∀ boundary ∈ placed pick tokens, boundary.2 ≠ name := by
  rintro ⟨i,n⟩ member rfl
  obtain ⟨t,there,own⟩ := mem_placed.mp member
  exact absent t (List.mem_of_getElem? there) own

-- Where a token stands when `count` tokens are written into the document behind the first `front`.
def widened (front count i : Nat) : Nat := if i < front then i else i + count

theorem widened_ordered (front count : Nat) : ∀ i j, widened front count i ≤ widened front count j ↔ i ≤ j := by
  intro i j
  simp only [widened]
  split <;> split <;> omega

theorem placed_widened (pick : Boundaries → List (List Char)) (pre post : List Token) (count : Nat) :
    (placed pick (pre ++ post)).map (·.map (widened pre.length count) id) =
      placed pick pre ++ (placed pick post).map (Placed.shift (pre.length + count)) := by
  rw [placed_behind,List.map_append,List.map_map]
  congr 1
  · refine (List.map_congr_left ?_).trans (List.map_id _)
    rintro ⟨i,n⟩ member
    obtain ⟨t,there,_⟩ := mem_placed.mp member
    have within : i < pre.length := (List.getElem?_eq_some_iff.mp there).1
    simp only [Prod.map_apply,widened,if_pos within,id_eq]
  · apply List.map_congr_left
    rintro ⟨i,n⟩ _
    have behind : ¬pre.length + i < pre.length := by omega
    simp only [Function.comp_apply,Placed.shift,Prod.map_apply,widened,if_neg behind,id_eq,Prod.mk.injEq,and_true]
    omega

theorem closableStarts_range (starts : first.boundaries = ⟨[name],[]⟩) (ends : last.boundaries = ⟨[],[name]⟩)
    (free : ∀ t ∈ mid, t.boundaries = ⟨[],[]⟩)
    (fresh : ∀ t ∈ pre ++ post, name ∉ t.boundaries.starts ∧ name ∉ t.boundaries.ends) :
    closableStarts (pre ++ first :: (mid ++ last :: post)) =
      (closableStarts (pre ++ post)).insertIdx (deletionStarts pre).length true := by
  have startsAt : deletionStarts (pre ++ first :: (mid ++ last :: post)) = placed Boundaries.starts pre ++
      (pre.length,name) :: (placed Boundaries.starts post).map (Placed.shift (pre.length + (mid.length + 2))) := by
    rw [deletionStarts,placed_range Boundaries.starts fun t member => by rw [free t member],starts,ends]
    simp [Nat.add_assoc]
  have endsAt : deletionEnds (pre ++ first :: (mid ++ last :: post)) = placed Boundaries.ends pre ++
      (pre.length + mid.length + 1,name) ::
        (placed Boundaries.ends post).map (Placed.shift (pre.length + (mid.length + 2))) := by
    rw [deletionEnds,placed_range Boundaries.ends fun t member => by rw [free t member],starts,ends]
    simp [Nat.add_assoc]
  have others {pick : Boundaries → List (List Char)} (absent : ∀ t ∈ pre ++ post, name ∉ pick t.boundaries) :
      ∀ boundary ∈ placed pick pre ++ (placed pick post).map (Placed.shift (pre.length + (mid.length + 2))),
        boundary.2 ≠ name := by
    rw [← placed_widened]
    intro boundary member
    obtain ⟨origin,there,rfl⟩ := List.mem_map.mp member
    exact placed_others absent origin there
  have otherStarts := others fun t member => (fresh t member).1
  have otherEnds := others fun t member => (fresh t member).2
  -- The range's own end is the only one that the other starts do not see.
  have kept : (deletionEnds (pre ++ first :: (mid ++ last :: post))).filter (·.2 ≠ name) =
      placed Boundaries.ends pre ++
        (placed Boundaries.ends post).map (Placed.shift (pre.length + (mid.length + 2))) := by
    rw [endsAt,List.filter_append,List.filter_cons_of_neg (by simp),← List.filter_append,List.filter_eq_self]
    intro boundary member
    simpa using otherEnds boundary member
  have final : (pre.length + mid.length + 1,name) ∈ deletionEnds (pre ++ first :: (mid ++ last :: post)) := by
    rw [endsAt]
    simp
  have order : pre.length ≤ pre.length + mid.length + 1 := by omega
  have insert := @closableAmong_insert _ _ _ (pre.length,name) _ otherStarts final rfl order
  rw [← closableAmong_others otherStarts,kept,← placed_widened,← placed_widened] at insert
  rw [closableAmong_moved (widened_ordered pre.length (mid.length + 2))] at insert
  rw [closableStarts,startsAt]
  exact insert

theorem table_before {table : List Bool} {place i : Nat} (before : i < place) :
    (table.insertIdx place true).getD i false = table.getD i false := by
  rw [List.getD_eq_getElem?_getD,List.getElem?_insertIdx_of_lt before,← List.getD_eq_getElem?_getD]

theorem table_here {table : List Bool} {place : Nat} (within : place ≤ table.length) :
    (table.insertIdx place true).getD place false = true := by
  rw [List.getD_eq_getElem?_getD,List.getElem?_insertIdx_self,if_pos within]
  rfl

theorem table_behind {table : List Bool} {place : Nat} (i : Nat) :
    (table.insertIdx place true).getD (place + 1 + i) false = table.getD (place + i) false := by
  have behind : place < place + 1 + i := by omega
  have entry : place + 1 + i - 1 = place + i := by omega
  rw [List.getD_eq_getElem?_getD,List.getElem?_insertIdx_of_gt behind,entry,← List.getD_eq_getElem?_getD]

end Ranges

end Redline.Markup
