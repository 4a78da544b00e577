import Mathlib.Data.List.Nodup
import Redline.Proofs.Surveys

namespace Redline.Markup

-- An assignment of ends to starts, one row for each start in document order, with the place of its end
-- among the ends. An end has the name of its start, stands at its tag or later, and is given only once.
structure Pairing (starts ends : List Placed) where
  rows : List (Placed × Option Nat)
  whole : rows.map (·.1) = starts
  suited : ∀ start j, (start,some j) ∈ rows → ∃ final, ends[j]? = some final ∧ final.2 = start.2 ∧ start.1 ≤ final.1
  distinct : (rows.filterMap (·.2)).Nodup

def covered (name : List Char) (rows : List (Placed × Option Nat)) : Nat :=
  rows.countP fun row => row.1.2 = name && row.2.isSome

-- Rows that give out free ends only, each end with its place.
structure Assigned (free : List (Placed × Nat)) (rows : List (Placed × Option Nat)) : Prop where
  suited : ∀ start j, (start,some j) ∈ rows → ∃ final, (final,j) ∈ free ∧ fits start final = true
  distinct : (rows.filterMap (·.2)).Nodup

-- One start after the other takes the first free end that fits.
inductive Greedy : List (Placed × Nat) → List (Placed × Option Nat) → Prop where
  | done {free : List (Placed × Nat)} : Greedy free []
  | take {front back : List (Placed × Nat)} {start final : Placed} {j : Nat} {rows : List (Placed × Option Nat)} :
      (∀ row ∈ front, fits start row.1 = false) → fits start final = true → Greedy (front ++ back) rows →
      Greedy (front ++ (final,j) :: back) ((start,some j) :: rows)
  | pass {free : List (Placed × Nat)} {start : Placed} {rows : List (Placed × Option Nat)} :
      (∀ row ∈ free, fits start row.1 = false) → Greedy free rows → Greedy free ((start,none) :: rows)

section Rows
variable {free front back : List (Placed × Nat)} {rows : List (Placed × Option Nat)} {start final : Placed} {j : Nat}

theorem takeEnd_split (start : Placed) (free : List (Placed × Nat)) :
    (takeEnd start (free.map (·.1)) = none ∧ ∀ row ∈ free, fits start row.1 = false) ∨
      ∃ front final j back, free = front ++ (final,j) :: back ∧ (∀ row ∈ front, fits start row.1 = false) ∧
        fits start final = true ∧ takeEnd start (free.map (·.1)) = some ((front ++ back).map (·.1)) := by
  induction free with
  | nil => exact .inl ⟨rfl,fun _ member => (List.not_mem_nil member).elim⟩
  | cons first rest ih =>
      obtain ⟨final,j⟩ := first
      by_cases here : final.2 = start.2 ∧ start.1 ≤ final.1
      · refine .inr ⟨[],final,j,rest,rfl,fun _ member => (List.not_mem_nil member).elim,decide_eq_true here,?_⟩
        simp [takeEnd,here]
      · have other : fits start final = false := decide_eq_false here
        rcases ih with ⟨none_,misses⟩ | ⟨front,final',j',back,eq,misses,found,taken⟩
        · exact .inl ⟨by simp [takeEnd,here,none_],List.forall_mem_cons.mpr ⟨other,misses⟩⟩
        · refine .inr ⟨(final,j) :: front,final',j',back,by rw [eq]; rfl,List.forall_mem_cons.mpr ⟨other,misses⟩,found,?_⟩
          simp [takeEnd,here,taken]

-- The table marks exactly the starts that take an end.
theorem greedy_table (starts : List Placed) (free : List (Placed × Nat)) : ∃ rows, Greedy free rows ∧
    rows.map (·.1) = starts ∧ rows.map (·.2.isSome) = closableAmong starts (free.map (·.1)) := by
  induction starts generalizing free with
  | nil => exact ⟨[],.done,rfl,rfl⟩
  | cons start rest ih =>
      rcases takeEnd_split start free with ⟨none_,misses⟩ | ⟨front,final,j,back,rfl,misses,found,taken⟩
      · obtain ⟨rows,greedy,whole,marks⟩ := ih free
        refine ⟨(start,none) :: rows,.pass misses greedy,congrArg (start :: ·) whole,?_⟩
        simp only [closableAmong,none_,List.map_cons,marks]
        rfl
      · obtain ⟨rows,greedy,whole,marks⟩ := ih (front ++ back)
        refine ⟨(start,some j) :: rows,.take misses found greedy,congrArg (start :: ·) whole,?_⟩
        simp only [closableAmong,taken,List.map_cons,marks]
        rfl

theorem Assigned.of_sublist {rows' : List (Placed × Option Nat)} (assigned : Assigned free rows)
    (less : rows'.Sublist rows) : Assigned free rows' :=
  ⟨fun start j member => assigned.suited start j (less.subset member),assigned.distinct.sublist (less.filterMap _)⟩

theorem given_away {other : Placed} (member : (other,some j) ∈ rows) : j ∈ rows.filterMap (·.2) :=
  List.mem_filterMap.mpr ⟨_,member,rfl⟩

theorem free_others {e : Placed × Nat} (member : e ∈ front ++ (final,j) :: back) (other : e.2 ≠ j) :
    e ∈ front ++ back := by
  rcases List.mem_append.mp member with before | behind
  · exact List.mem_append_left _ before
  · rcases List.mem_cons.mp behind with same | behind
    · exact absurd (congrArg Prod.snd same) other
    · exact List.mem_append_right _ behind

theorem free_apart (places : ((front ++ (final,j) :: back).map (·.2)).Nodup) {e : Placed × Nat}
    (member : e ∈ front ++ back) : e.2 ≠ j := by
  have once : j ∉ (front ++ back).map (·.2) := by
    rw [List.map_append,List.map_cons] at places
    rw [List.map_append]
    exact (List.nodup_middle.mp places).notMem
  intro same
  exact once (List.mem_map.mpr ⟨e,member,same⟩)

theorem greedy_assigned (greedy : Greedy free rows) (places : (free.map (·.2)).Nodup) : Assigned free rows := by
  induction greedy with
  | done => exact ⟨fun _ _ member => (List.not_mem_nil member).elim,List.nodup_nil⟩
  | @take front back start final j rows misses found _ ih =>
      have fewer : (front ++ back).Sublist (front ++ (final,j) :: back) :=
        (List.sublist_cons_self (final,j) back).append_left front
      have rest := ih (places.sublist (fewer.map _))
      refine ⟨?_,?_⟩
      · intro other k member
        rcases List.mem_cons.mp member with same | later
        · cases same
          exact ⟨final,List.mem_append_right _ List.mem_cons_self,found⟩
        · obtain ⟨e,here,suits⟩ := rest.suited other k later
          exact ⟨e,fewer.subset here,suits⟩
      · refine List.nodup_cons.mpr ⟨?_,rest.distinct⟩
        intro again
        obtain ⟨⟨other,o⟩,later,same⟩ := List.mem_filterMap.mp again
        cases same
        obtain ⟨e,here,_⟩ := rest.suited other j later
        exact free_apart places here rfl
  | pass misses _ ih =>
      have rest := ih places
      refine ⟨?_,rest.distinct⟩
      intro other k member
      rcases List.mem_cons.mp member with same | later
      · cases same
      · exact rest.suited other k later

-- What a start that goes without could have had went to starts before it.
theorem greedy_left (greedy : Greedy free rows) {before after : List (Placed × Option Nat)}
    (here : rows = before ++ (start,none) :: after) (member : (final,j) ∈ free) (suits : fits start final = true) :
    ∃ earlier ∈ before, earlier.2 = some j := by
  induction greedy generalizing before with
  | done => simp at here
  | @take front back first end_ k rows misses found _ ih =>
      cases before with
      | nil => cases here
      | cons row before =>
          obtain ⟨rfl,rest⟩ := List.cons.inj here
          by_cases same : k = j
          · exact ⟨_,List.mem_cons_self,congrArg some same⟩
          · obtain ⟨earlier,there,taken⟩ := ih rest (free_others member (Ne.symm same))
            exact ⟨earlier,List.mem_cons_of_mem _ there,taken⟩
  | pass misses _ ih =>
      cases before with
      | nil =>
          cases here
          cases (misses _ member).symm.trans suits
      | cons row before =>
          obtain ⟨rfl,rest⟩ := List.cons.inj here
          obtain ⟨earlier,there,taken⟩ := ih rest member
          exact ⟨earlier,List.mem_cons_of_mem _ there,taken⟩

end Rows

section Exchange
variable {front back : List (Placed × Nat)} {start final : Placed} {j : Nat}

theorem covered_cons (name : List Char) (row : Placed × Option Nat) (rows : List (Placed × Option Nat)) :
    covered name (row :: rows) = covered name [row] + covered name rows := by
  rw [covered,covered,covered,← List.countP_append]
  rfl

theorem covered_middle (name : List Char) (one two : List (Placed × Option Nat)) (row : Placed × Option Nat) :
    covered name (one ++ row :: two) = covered name [row] + (covered name one + covered name two) := by
  have parts : covered name (one ++ row :: two) = covered name one + covered name (row :: two) := List.countP_append
  rw [parts,covered_cons]
  omega

-- Starts of one name count alike, and a start that is given an end counts at least as much as one that
-- may have none.
theorem covered_alike {other : Placed} (same : start.2 = other.2) (name : List Char) (given : Option Nat) :
    covered name [(start,given)] = covered name [(other,given)] := by
  simp [covered,same]

theorem covered_given (name : List Char) (given : Option Nat) :
    covered name [(start,given)] ≤ covered name [(start,some j)] := by
  cases given <;> simp [covered]

variable {rows one two : List (Placed × Option Nat)} {other : Placed} {given : Option Nat}

theorem Assigned.without_unused (assigned : Assigned (front ++ (final,j) :: back) rows) (unused : j ∉ rows.filterMap (·.2)) :
    Assigned (front ++ back) rows := by
  refine ⟨?_,assigned.distinct⟩
  intro s k member
  obtain ⟨e,there,suits⟩ := assigned.suited s k member
  have different : k ≠ j := by
    intro same
    exact unused (same ▸ given_away member)
  exact ⟨e,free_others there different,suits⟩

theorem Assigned.insert {free : List (Placed × Nat)} (assigned : Assigned free (one ++ two))
    (suits : ∀ k, given = some k → (∃ e, (e,k) ∈ free ∧ fits other e = true) ∧ k ∉ (one ++ two).filterMap (·.2)) :
    Assigned free (one ++ (other,given) :: two) := by
  have moved : ((other,given) :: (one ++ two)).Perm (one ++ (other,given) :: two) := List.perm_middle.symm
  refine ⟨?_,(moved.filterMap (·.2)).nodup_iff.mp ?_⟩
  · intro s k member
    rcases List.mem_cons.mp (moved.mem_iff.mpr member) with same | before
    · obtain ⟨rfl,here⟩ := Prod.mk.inj same
      exact (suits k here.symm).1
    · exact assigned.suited s k before
  · cases given with
    | none => exact assigned.distinct
    | some k => exact List.nodup_cons.mpr ⟨(suits k rfl).2,assigned.distinct⟩

theorem free_own (places : ((front ++ (final,j) :: back).map (·.2)).Nodup) {e : Placed}
    (member : (e,j) ∈ front ++ (final,j) :: back) : e = final := by
  by_contra different
  have left : (e,j) ∈ front ++ back := by
    rcases List.mem_append.mp member with before | behind
    · exact List.mem_append_left _ before
    · rcases List.mem_cons.mp behind with same | behind
      · exact absurd (congrArg Prod.fst same) different
      · exact List.mem_append_right _ behind
  exact free_apart places left rfl

-- What fits the start that goes first stands no earlier than the end it takes, so it fits whoever that
-- end fits.
theorem fits_later {e : Placed} {k : Nat} (ordered : (front ++ (final,j) :: back).Pairwise fun a b => a.1.1 ≤ b.1.1)
    (misses : ∀ row ∈ front, fits start row.1 = false) (found : fits start final = true) (suited : fits other final = true)
    (left : (e,k) ∈ front ++ back) (suits : fits start e = true) : fits other e = true := by
  have later : final.1 ≤ e.1 := by
    rcases List.mem_append.mp left with before | behind
    · cases (misses _ before).symm.trans suits
    · exact List.rel_of_pairwise_cons (List.pairwise_append.mp ordered).2.1 behind
  simp only [fits,decide_eq_true_eq] at found suited suits ⊢
  exact ⟨suits.1.trans (found.1.symm.trans suited.1),Nat.le_trans suited.2 later⟩

-- The exchange. The start that goes first may take the first end that fits: where another start was given
-- that end, this one gets instead what the first had.
theorem exchange_first (places : ((front ++ (final,j) :: back).map (·.2)).Nodup)
    (ordered : (front ++ (final,j) :: back).Pairwise fun a b => a.1.1 ≤ b.1.1)
    (misses : ∀ row ∈ front, fits start row.1 = false) (found : fits start final = true)
    (assigned : Assigned (front ++ (final,j) :: back) ((start,given) :: rows)) :
    ∃ rows', rows'.map (·.1) = rows.map (·.1) ∧ Assigned (front ++ back) rows' ∧
      ∀ name, covered name ((start,given) :: rows) ≤ covered name ((start,some j) :: rows') := by
  have rest := assigned.of_sublist (List.sublist_cons_self _ rows)
  by_cases used : ∃ other, (other,some j) ∈ rows
  · obtain ⟨other,member⟩ := used
    obtain ⟨one,two,rfl⟩ := List.append_of_mem member
    obtain ⟨e,there,suited⟩ := rest.suited other j member
    rw [free_own places there] at suited
    have less : (one ++ two).Sublist (one ++ (other,some j) :: two) := (List.sublist_cons_self _ two).append_left one
    have once : j ∉ (one ++ two).filterMap (·.2) := by
      have inner := rest.distinct
      rw [List.filterMap_append] at inner ⊢
      exact (List.nodup_middle.mp inner).notMem
    refine ⟨one ++ (other,given) :: two,by simp,((rest.of_sublist less).without_unused once).insert ?_,?_⟩
    · rintro k rfl
      have unused : k ∉ (one ++ (other,some j) :: two).filterMap (·.2) := (List.nodup_cons.mp assigned.distinct).1
      have different : k ≠ j := by
        intro same
        rw [same] at unused
        exact unused (given_away member)
      obtain ⟨e,there,suits⟩ := assigned.suited start k List.mem_cons_self
      have left := free_others there different
      refine ⟨⟨e,left,fits_later ordered misses found suited left suits⟩,?_⟩
      intro again
      exact unused ((less.filterMap _).subset again)
    · intro n
      have same : start.2 = other.2 := by
        simp only [fits,decide_eq_true_eq] at found suited
        exact found.1.symm.trans suited.1
      have alike := covered_alike same n given
      have alikeGiven := covered_alike same n (some j)
      rw [covered_cons n (start,given),covered_middle,covered_cons n (start,some j),covered_middle]
      omega
  · have unused : j ∉ rows.filterMap (·.2) := by
      intro given_
      obtain ⟨⟨other,o⟩,member,same⟩ := List.mem_filterMap.mp given_
      cases same
      exact used ⟨other,member⟩
    refine ⟨rows,rfl,rest.without_unused unused,?_⟩
    intro name
    have more : covered name [(start,given)] ≤ covered name [(start,some j)] := covered_given name given
    rw [covered_cons,covered_cons name (start,some j)]
    omega

end Exchange

theorem greedy_most {free : List (Placed × Nat)} {rows others : List (Placed × Option Nat)} (greedy : Greedy free rows)
    (places : (free.map (·.2)).Nodup) (ordered : free.Pairwise fun a b => a.1.1 ≤ b.1.1)
    (assigned : Assigned free others) (same : others.map (·.1) = rows.map (·.1)) (name : List Char) :
    covered name others ≤ covered name rows := by
  induction greedy generalizing others with
  | done =>
      rw [List.map_nil,List.map_eq_nil_iff] at same
      subst same
      exact Nat.le_refl _
  | @take front back start final j rows misses found _ ih =>
      obtain ⟨⟨start',given⟩,others,rfl,here,rest⟩ := List.map_eq_cons_iff.mp same
      cases here
      obtain ⟨others',whole,assigned',more⟩ := exchange_first places ordered misses found assigned
      have fewer : (front ++ back).Sublist (front ++ (final,j) :: back) :=
        (List.sublist_cons_self (final,j) back).append_left front
      have least := ih (places.sublist (fewer.map _)) (ordered.sublist fewer) assigned' (whole.trans rest)
      have first := more name
      rw [covered_cons name (start,some j)] at first ⊢
      omega
  | @pass free start rows misses _ ih =>
      obtain ⟨⟨start',given⟩,others,rfl,here,rest⟩ := List.map_eq_cons_iff.mp same
      cases here
      have none_ : given = none := by
        cases given with
        | none => rfl
        | some k =>
            obtain ⟨e,there,suits⟩ := assigned.suited start k List.mem_cons_self
            cases (misses _ there).symm.trans suits
      have least := ih places ordered (assigned.of_sublist (List.sublist_cons_self _ others)) rest
      rw [none_,covered_cons name (start,none) others,covered_cons name (start,none) rows]
      omega

section Table
variable {starts ends : List Placed}

theorem numbered_places (ends : List Placed) : (ends.zipIdx.map (·.2)).Nodup := by
  rw [List.zipIdx_map_snd]
  exact List.nodup_range'

theorem Pairing.assigned_rows (pairing : Pairing starts ends) : Assigned ends.zipIdx pairing.rows := by
  refine ⟨?_,pairing.distinct⟩
  intro start j member
  obtain ⟨final,there,suits⟩ := pairing.suited start j member
  exact ⟨final,List.mk_mem_zipIdx_iff_getElem?.mpr there,decide_eq_true suits⟩

theorem closableAmong_maximum (starts : List Placed) (ordered : ends.Pairwise fun a b => a.1 ≤ b.1) :
    ∃ given : Pairing starts ends, given.rows.map (·.2.isSome) = closableAmong starts ends ∧
      (∀ (other : Pairing starts ends) name, covered name other.rows ≤ covered name given.rows) ∧
      ∀ before start after, given.rows = before ++ (start,none) :: after → ∀ j final, ends[j]? = some final →
        final.2 = start.2 → start.1 ≤ final.1 → ∃ earlier ∈ before, earlier.2 = some j := by
  obtain ⟨rows,greedy,whole,marks⟩ := greedy_table starts ends.zipIdx
  have places := numbered_places ends
  have assigned := greedy_assigned greedy places
  have numbered : ends.zipIdx.Pairwise fun a b => a.1.1 ≤ b.1.1 := by
    rw [← List.zipIdx_map_fst 0 ends,List.pairwise_map] at ordered
    exact ordered
  rw [List.zipIdx_map_fst] at marks
  refine ⟨⟨rows,whole,?_,assigned.distinct⟩,marks,?_,?_⟩
  · intro start j member
    obtain ⟨final,there,suits⟩ := assigned.suited start j member
    exact ⟨final,List.mk_mem_zipIdx_iff_getElem?.mp there,of_decide_eq_true suits⟩
  · intro other name
    exact greedy_most greedy places numbered other.assigned_rows (other.whole.trans whole.symm) name
  · intro before start after here j final there same order
    exact greedy_left greedy here (List.mk_mem_zipIdx_iff_getElem?.mpr there) (decide_eq_true ⟨same,order⟩)

-- The table of a document, made with one queue of ends for each name, marks the starts of an assignment
-- that serves as many starts of each name as any does. A start that is left without an end has none of its
-- name at its tag or later that did not go to a start before it.
theorem closable_starts_matched (tokens : List Token) :
    surveyed tokens = closableStarts tokens ∧
    ∃ given : Pairing (deletionStarts tokens) (deletionEnds tokens),
      given.rows.map (·.2.isSome) = surveyed tokens ∧
      (∀ (other : Pairing (deletionStarts tokens) (deletionEnds tokens)) name,
        covered name other.rows ≤ covered name given.rows) ∧
      ∀ before start after, given.rows = before ++ (start,none) :: after →
        ∀ j final, (deletionEnds tokens)[j]? = some final → final.2 = start.2 → start.1 ≤ final.1 →
          ∃ earlier ∈ before, earlier.2 = some j := by
  rw [surveyed_closableStarts]
  exact ⟨rfl,closableAmong_maximum (deletionStarts tokens) (placed_ordered Boundaries.ends tokens)⟩

example : closableAmong [(1,deletionKind),(3,deletionKind),(5,deletionKind)] [(0,deletionKind),(3,deletionKind),(4,deletionKind)] =
    [true,true,false] := rfl

end Table

end Redline.Markup
