import Mathlib.Logic.Function.Basic
import Redline.Proofs.RangeTable

namespace Redline.Markup

section Gathering

-- What a start tag says about ranges, gathered attribute by attribute; starts behind the tag are put
-- aside until all attributes are seen.
structure Gathering where
  starts : List (List Char) := []
  behind : List (List Char) := []
  ends : List (List Char) := []

def Gathering.add (g : Gathering) (a : Attribute) : Gathering :=
  match a.marker? with
  | some (.suggestion .startBefore names) => {g with starts := g.starts ++ names.filter isDeletion}
  | some (.suggestion .startAfter names) => {g with behind := g.behind ++ names.filter isDeletion}
  | some (.suggestion .endBefore names) => {g with ends := g.ends ++ names.filter isDeletion}
  | some (.suggestion .endAfter names) => {g with ends := g.ends ++ names.filter isDeletion}
  | _ => g

def Gathering.boundaries (g : Gathering) : Boundaries := ⟨g.starts ++ g.behind,g.ends⟩

def StartTag.gathered (tag : StartTag) : Boundaries :=
  match tag.markerElement? with
  | some marker =>
      if isDeletion tag.suggestionName then
        match marker with
        | .suggestionStart => ⟨[tag.suggestionName],[]⟩
        | .suggestionEnd => ⟨[],[tag.suggestionName]⟩
        | _ => ⟨[],[]⟩
      else ⟨[],[]⟩
  | none => (tag.attributes.foldl Gathering.add {}).boundaries

def Token.gathered : Token → Boundaries
  | .opening tag => tag.gathered
  | _ => ⟨[],[]⟩

def namesWhere (kind : Anchor → Bool) (deletions : List (Anchor × List Char)) : List (List Char) :=
  (deletions.filter fun row => kind row.1).map (·.2)

theorem namesWhere_append (kind : Anchor → Bool) (deletions more : List (Anchor × List Char)) :
    namesWhere kind (deletions ++ more) = namesWhere kind deletions ++ namesWhere kind more := by
  simp [namesWhere]

theorem namesWhere_anchor (kind : Anchor → Bool) (anchor : Anchor) (names : List (List Char)) :
    namesWhere kind (names.map (anchor,·)) = if kind anchor then names else [] := by
  cases holds : kind anchor <;> simp [namesWhere,Function.comp_def,holds,List.filter_map]

def Anchor.isEnd (anchor : Anchor) : Bool := anchor = .endBefore ∨ anchor = .endAfter

theorem add_names (g : Gathering) (a : Attribute) :
    g.add a = ⟨g.starts ++ namesWhere (· = .startBefore) a.deletions,
      g.behind ++ namesWhere (· = .startAfter) a.deletions,g.ends ++ namesWhere Anchor.isEnd a.deletions⟩ := by
  unfold Gathering.add Attribute.deletions
  cases a.marker? with
  | none => simp [namesWhere]
  | some marker =>
      cases marker with
      | comment => simp [namesWhere]
      | suggestion anchor names =>
          simp only [namesWhere_anchor]
          cases anchor <;> simp [Anchor.isEnd]

theorem gathering_names (attributes : List Attribute) (g : Gathering) : attributes.foldl Gathering.add g =
    ⟨g.starts ++ namesWhere (· = .startBefore) (attributes.flatMap Attribute.deletions),
      g.behind ++ namesWhere (· = .startAfter) (attributes.flatMap Attribute.deletions),
      g.ends ++ namesWhere Anchor.isEnd (attributes.flatMap Attribute.deletions)⟩ := by
  induction attributes generalizing g with
  | nil => simp [namesWhere]
  | cons a rest ih =>
      rw [List.foldl_cons,ih (g.add a),add_names]
      simp only [List.flatMap_cons,namesWhere_append,List.append_assoc]

theorem gathered_boundaries (tag : StartTag) : tag.gathered = tag.boundaries := by
  unfold StartTag.gathered StartTag.boundaries
  cases tag.markerElement? with
  | none => simp [gathering_names,Gathering.boundaries,namesWhere,StartTag.deletionsAt,StartTag.deletions,Anchor.isEnd]
  | some marker =>
      by_cases deletion : isDeletion tag.suggestionName = true
      · cases marker <;> simp [deletion]
      · cases marker <;> simp [deletion]

theorem token_gathered (t : Token) : t.gathered = t.boundaries := by
  cases t with
  | opening tag => exact gathered_boundaries tag
  | text content | other content | closing written tail => rfl

end Gathering

section Queues

-- The starts found so far, and for each name the places of its ends, first come first.
structure Survey where
  starts : List Placed := []
  waiting : List Char → List Nat := fun _ => []

def enqueue (place : Nat) (waiting : List Char → List Nat) (name : List Char) : List Char → List Nat :=
  Function.update waiting name (waiting name ++ [place])

def Survey.add (survey : Survey) : Token × Nat → Survey
  | (t,place) => ⟨survey.starts ++ t.gathered.starts.map (place,·),t.gathered.ends.foldl (enqueue place) survey.waiting⟩

def surveyOf (tokens : List Token) : Survey := tokens.zipIdx.foldl Survey.add {}

-- A start that finds no place at its own or later in the queue of its name is not closable.
def answers : List Placed → (List Char → List Nat) → List Bool
  | [],_ => []
  | start :: starts,waiting =>
      match (waiting start.2).dropWhile (· < start.1) with
      | [] => false :: answers starts (Function.update waiting start.2 [])
      | _ :: rest => true :: answers starts (Function.update waiting start.2 rest)

def surveyed (tokens : List Token) : List Bool := answers (surveyOf tokens).starts (surveyOf tokens).waiting

variable {name : List Char}

def placesOf (name : List Char) (ends : List Placed) : List Nat := (ends.filter (·.2 = name)).map (·.1)

theorem placesOf_append (ends more : List Placed) :
    placesOf name (ends ++ more) = placesOf name ends ++ placesOf name more := by
  simp [placesOf]

theorem foldl_enqueue (place : Nat) (names : List (List Char)) (waiting : List Char → List Nat) :
    names.foldl (enqueue place) waiting name = waiting name ++ placesOf name (names.map (place,·)) := by
  induction names generalizing waiting with
  | nil => simp [placesOf]
  | cons first rest ih =>
      rw [List.foldl_cons,ih]
      by_cases own : name = first
      · simp [enqueue,own,placesOf]
      · simp [enqueue,own,Ne.symm own,placesOf]

theorem foldl_survey (rows : List (Token × Nat)) (survey : Survey) :
    (rows.foldl Survey.add survey).starts =
        survey.starts ++ rows.flatMap (fun row => row.1.boundaries.starts.map (row.2,·)) ∧
      ∀ name, (rows.foldl Survey.add survey).waiting name =
        survey.waiting name ++ placesOf name (rows.flatMap fun row => row.1.boundaries.ends.map (row.2,·)) := by
  induction rows generalizing survey with
  | nil => simp [placesOf]
  | cons row rest ih =>
      obtain ⟨starts,waiting⟩ := ih (survey.add row)
      refine ⟨?_,?_⟩
      · rw [List.foldl_cons,starts,Survey.add,token_gathered]
        simp
      · intro name
        have here : (survey.add row).waiting name =
            survey.waiting name ++ placesOf name (row.1.boundaries.ends.map (row.2,·)) := by
          rw [← token_gathered]
          exact foldl_enqueue row.2 row.1.gathered.ends survey.waiting
        rw [List.foldl_cons,waiting name,here,List.flatMap_cons,placesOf_append,List.append_assoc]

theorem surveyOf_starts (tokens : List Token) : (surveyOf tokens).starts = deletionStarts tokens :=
  (foldl_survey tokens.zipIdx {}).1

theorem surveyOf_waiting (tokens : List Token) (name : List Char) :
    (surveyOf tokens).waiting name = placesOf name (deletionEnds tokens) :=
  (foldl_survey tokens.zipIdx {}).2 name

end Queues

section Answers

theorem placed_ordered (pick : Boundaries → List (List Char)) (tokens : List Token) :
    (placed pick tokens).Pairwise fun a b => a.1 ≤ b.1 := by
  refine List.pairwise_flatMap.mpr ⟨?_,?_⟩
  · intro row _
    exact List.pairwise_map.mpr (List.pairwise_of_forall fun _ _ => Nat.le_refl row.2)
  · have rows : tokens.zipIdx.Pairwise fun a b => a.2 ≤ b.2 := by
      apply List.pairwise_map.mp
      rw [List.zipIdx_map_snd]
      exact List.pairwise_le_range'
    refine rows.imp ?_
    intro a b order one first two second
    obtain ⟨_,_,rfl⟩ := List.mem_map.mp first
    obtain ⟨_,_,rfl⟩ := List.mem_map.mp second
    exact order

def fits (start final : Placed) : Bool := final.2 = start.2 ∧ start.1 ≤ final.1

theorem takeEnd_fits (start : Placed) (ends : List Placed) :
    (takeEnd start ends = none ∧ ends.filter (fits start) = []) ∨
      ∃ left final, takeEnd start ends = some left ∧ ends.filter (fits start) = final :: left.filter (fits start) := by
  induction ends with
  | nil => exact .inl ⟨rfl,rfl⟩
  | cons first rest ih =>
      by_cases here : first.2 = start.2 ∧ start.1 ≤ first.1
      · exact .inr ⟨rest,first,by simp [takeEnd,here],by simp [fits,here]⟩
      · have other : fits start first = false := by simpa [fits] using here
        rcases ih with ⟨none_,empty⟩ | ⟨left,final,taken,found⟩
        · exact .inl ⟨by simp [takeEnd,here,none_],by simp [other,empty]⟩
        · exact .inr ⟨first :: left,final,by simp [takeEnd,here,taken],by simp [other,found]⟩

theorem placesOf_others {name other : List Char} {ends left : List Placed} (apart : other ≠ name)
    (same : left.filter (·.2 ≠ name) = ends.filter (·.2 ≠ name)) : placesOf other left = placesOf other ends := by
  have within : ∀ list : List Placed, placesOf other (list.filter (·.2 ≠ name)) = placesOf other list := by
    intro list
    simp only [placesOf,List.filter_filter]
    congr 2
    funext final
    by_cases own : final.2 = other <;> simp [own,apart]
  rw [← within left,same,within ends]

theorem placesFrom_fits (start : Placed) (ends : List Placed) :
    (placesOf start.2 ends).filter (start.1 ≤ ·) = (ends.filter (fits start)).map (·.1) := by
  rw [placesOf,List.filter_map,List.filter_filter]
  congr 2
  funext final
  simp [fits,Bool.and_comm]

-- In a queue in order, throwing away what the scan has passed leaves what it has not.
theorem dropWhile_ordered {queue : List Nat} (ordered : queue.Pairwise (· ≤ ·)) (place : Nat) :
    queue.dropWhile (· < place) = queue.filter (place ≤ ·) := by
  induction queue with
  | nil => rfl
  | cons first rest ih =>
      obtain ⟨least,behind⟩ := List.pairwise_cons.mp ordered
      by_cases passed : first < place
      · simp [passed,Nat.not_le.mpr passed,ih behind]
      · have all : ∀ next ∈ rest, place ≤ next := fun next member =>
          Nat.le_trans (Nat.not_lt.mp passed) (least next member)
        simp [passed,Nat.not_lt.mp passed,List.filter_eq_self.mpr fun next member => decide_eq_true (all next member)]

-- The queues hold what is left of the ends, as far as the scan from a place on can tell.
structure Queued (place : Nat) (ends : List Placed) (waiting : List Char → List Nat) : Prop where
  ordered : ∀ name, (waiting name).Pairwise (· ≤ ·)
  same : ∀ name, (waiting name).filter (place ≤ ·) = (placesOf name ends).filter (place ≤ ·)

theorem Queued.of_le {place later : Nat} {ends : List Placed} {waiting : List Char → List Nat}
    (queued : Queued place ends waiting) (order : place ≤ later) : Queued later ends waiting := by
  have narrow : ∀ list : List Nat, list.filter (later ≤ ·) = (list.filter (place ≤ ·)).filter (later ≤ ·) := by
    intro list
    rw [List.filter_filter]
    congr 1
    funext next
    by_cases reached : later ≤ next
    · simp [reached,Nat.le_trans order reached]
    · simp [reached]
  refine ⟨queued.ordered,?_⟩
  intro name
  rw [narrow,queued.same name,← narrow]

theorem Queued.of_spent {start : Placed} {ends left : List Placed} {waiting : List Char → List Nat} {queue : List Nat}
    (queued : Queued start.1 ends waiting) (sorted : queue.Pairwise (· ≤ ·))
    (others : left.filter (·.2 ≠ start.2) = ends.filter (·.2 ≠ start.2))
    (own : queue.filter (start.1 ≤ ·) = (left.filter (fits start)).map (·.1)) :
    Queued start.1 left (Function.update waiting start.2 queue) := by
  refine ⟨?_,?_⟩
  · intro name
    by_cases here : name = start.2
    · simpa [here] using sorted
    · simpa [here] using queued.ordered name
  · intro name
    by_cases here : name = start.2
    · rw [here,Function.update_self,own,placesFrom_fits]
    · rw [Function.update_of_ne here,queued.same name,placesOf_others here others]

theorem answers_closableAmong {starts ends : List Placed} {waiting : List Char → List Nat} {place : Nat}
    (ordered : starts.Pairwise fun a b => a.1 ≤ b.1) (ahead : ∀ start ∈ starts, place ≤ start.1)
    (queued : Queued place ends waiting) : answers starts waiting = closableAmong starts ends := by
  induction starts generalizing ends waiting place with
  | nil => rfl
  | cons start rest ih =>
      obtain ⟨next,behind⟩ := List.pairwise_cons.mp ordered
      have here := queued.of_le (ahead start List.mem_cons_self)
      have live : (waiting start.2).dropWhile (· < start.1) = (ends.filter (fits start)).map (·.1) := by
        rw [dropWhile_ordered (here.ordered start.2),here.same,placesFrom_fits]
      have sorted : ((waiting start.2).dropWhile (· < start.1)).Pairwise (· ≤ ·) :=
        (here.ordered start.2).sublist (List.dropWhile_sublist _)
      rcases takeEnd_fits start ends with ⟨none_,empty⟩ | ⟨left,final,taken,found⟩
      · rw [empty] at live
        have nothing : ([] : List Nat).filter (start.1 ≤ ·) = (ends.filter (fits start)).map (·.1) := by
          rw [empty]
          rfl
        have spent := here.of_spent .nil rfl nothing
        simp only [answers,closableAmong,live,none_,List.map_nil]
        rw [ih behind next spent]
      · rw [found,List.map_cons] at live
        rw [live] at sorted
        have passed : (left.filter (fits start)).map (·.1) =
            ((left.filter (fits start)).map (·.1)).filter (start.1 ≤ ·) := by
          rw [← placesFrom_fits,List.filter_filter]
          simp
        have spent := here.of_spent (List.pairwise_cons.mp sorted).2 (takeEnd_own taken) passed.symm
        simp only [answers,closableAmong,live,taken]
        rw [ih behind next spent]

theorem surveyed_closableStarts (tokens : List Token) : surveyed tokens = closableStarts tokens := by
  have queued : Queued 0 (deletionEnds tokens) (surveyOf tokens).waiting := by
    refine ⟨?_,fun name => by rw [surveyOf_waiting]⟩
    intro name
    rw [surveyOf_waiting,placesOf]
    exact List.pairwise_map.mpr ((placed_ordered Boundaries.ends tokens).sublist List.filter_sublist)
  have starts := placed_ordered Boundaries.starts tokens
  rw [surveyed,surveyOf_starts]
  exact answers_closableAmong starts (fun start _ => Nat.zero_le start.1) queued

end Answers

end Redline.Markup
