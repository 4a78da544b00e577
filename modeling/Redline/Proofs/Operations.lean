import Redline.Proofs.Surveys

namespace Redline.Markup

-- What a token can make the stripper do. An element is entered with its start tag written or held back;
-- a void one is not put on the stack.
inductive Operation where
  | countsComment
  | countsSuggestion
  | opens (name : List Char)
  | closes (name : List Char)
  | keeps (piece : Piece)
  | enters (tag : StartTag)
  | ends (name raw : List Char)

namespace Stripper

def enter (s : Stripper) (tag : StartTag) : Stripper :=
  let written := s.emitIfKept (.opening tag.name tag.isVoid tag.cleaned.raw)
  if tag.isVoid then written
  else
    {written with
      stack := ⟨tag.name,tag.cleaned.raw,!s.isDeleting,tag.deletionsAt .endBefore,tag.deletionsAt .endAfter⟩ :: s.stack}

def perform (s : Stripper) : Operation → Stripper
  | .countsComment => s.countComment
  | .countsSuggestion => s.countSuggestion
  | .opens name => s.openDeletion name
  | .closes name => s.closeDeletion name
  | .keeps piece => s.emitIfKept piece
  | .enters tag => s.enter tag
  | .ends name raw => s.endTag name raw

def performAll (s : Stripper) (operations : List Operation) : Stripper := operations.foldl perform s

end Stripper

def Operation.opened? : Operation → Option (List Char)
  | .opens name => some name
  | _ => none

def Marker.counting : Marker → Operation
  | .comment => .countsComment
  | .suggestion _ _ => .countsSuggestion

def StartTag.operations (tag : StartTag) : List Operation :=
  match tag.markerElement? with
  | some .commentStart | some .commentEnd => [.countsComment]
  | some .suggestionStart => .countsSuggestion :: if isDeletion tag.suggestionName then [.opens tag.suggestionName] else []
  | some .suggestionEnd => .countsSuggestion :: if isDeletion tag.suggestionName then [.closes tag.suggestionName] else []
  | none =>
      tag.markers.map Marker.counting ++ (tag.deletionsAt .startBefore).map .opens ++ .enters tag ::
        ((tag.deletionsAt .startAfter).map .opens ++
          if tag.isVoid then (tag.deletionsAt .endBefore ++ tag.deletionsAt .endAfter).map .closes else [])

def Token.operations : Token → List Operation
  | .text content => [.keeps (.text content)]
  | .other content => [.keeps (.text content)]
  | .opening tag => tag.operations
  | .closing written tail => [.ends (Text.lower written) (Token.closing written tail).raw]

-- The operations of a pass, each with the place of its token.
def script (tokens : List Token) : List (Nat × Operation) :=
  tokens.zipIdx.flatMap fun row => row.1.operations.map (row.2,·)

-- The starts that a script opens, in order.
def opensOf (rows : List (Nat × Operation)) : List Placed :=
  rows.filterMap fun row => row.2.opened?.map (row.1,·)

namespace Stripper
variable (s : Stripper)

section Tags

theorem performAll_append (operations more : List Operation) :
    s.performAll (operations ++ more) = (s.performAll operations).performAll more := List.foldl_append

theorem performAll_counting (markers : List Marker) :
    s.performAll (markers.map Marker.counting) = markers.foldl countMarker s := by
  rw [performAll,List.foldl_map]
  congr 1
  funext s marker
  cases marker <;> rfl

theorem performAll_opens (names : List (List Char)) : s.performAll (names.map .opens) = s.openDeletions names :=
  List.foldl_map

theorem performAll_closes (names : List (List Char)) : s.performAll (names.map .closes) = s.closeDeletions names :=
  List.foldl_map

theorem openDeletion_stacked (name : List Char) (stack : List OpenElement) :
    ({s with stack := stack} : Stripper).openDeletion name = {s.openDeletion name with stack := stack} := by
  unfold openDeletion
  dsimp only
  split <;> rfl

theorem openDeletions_stacked (names : List (List Char)) (stack : List OpenElement) :
    ({s with stack := stack} : Stripper).openDeletions names = {s.openDeletions names with stack := stack} := by
  induction names generalizing s with
  | nil => rfl
  | cons name rest ih =>
      have first := congrArg (·.openDeletions rest) (openDeletion_stacked s name stack)
      exact first.trans (ih (s.openDeletion name))

theorem element_operations (tag : StartTag) (ordinary : tag.markerElement? = none) :
    s.performAll tag.operations = s.element tag := by
  have before : s.performAll (tag.markers.map Marker.counting ++ (tag.deletionsAt .startBefore).map .opens) =
      (tag.markers.foldl countMarker s).openDeletions (tag.deletionsAt .startBefore) := by
    rw [performAll_append,performAll_counting,performAll_opens]
  have enters (s : Stripper) (operations : List Operation) :
      s.performAll (.enters tag :: operations) = (s.enter tag).performAll operations := rfl
  simp only [StartTag.operations,ordinary]
  rw [performAll_append,before,enters,performAll_append,performAll_opens]
  cases void : tag.isVoid with
  | true =>
      simp only [if_true]
      rw [performAll_closes,element_void s tag void,opened,enter]
      simp only [void,if_true]
  | false =>
      rw [element_open s tag void,enter]
      simp only [void,Bool.false_eq_true,if_false,openDeletions_stacked]
      simp [performAll,opened,void,entered,writes]

theorem startTag_operations (tag : StartTag) : s.performAll tag.operations = s.startTag tag := by
  unfold startTag
  cases here : tag.markerElement? with
  | none => exact element_operations s tag here
  | some marker =>
      unfold StartTag.operations
      cases marker with
      | commentStart | commentEnd => simp only [here]; rfl
      | suggestionStart | suggestionEnd =>
          simp only [here,markerElement]
          split <;> rfl

theorem step_operations (t : Token) : s.performAll t.operations = s.step t := by
  cases t with
  | text content | other content | closing written tail => rfl
  | opening tag => exact startTag_operations s tag

end Tags

section Counter

theorem perform_counter (operation : Operation) : (s.perform operation).closable = s.closable ∧
    (s.perform operation).nextStart = s.nextStart + operation.opened?.toList.length := by
  cases operation with
  | countsComment | countsSuggestion => exact ⟨rfl,rfl⟩
  | opens name => exact ⟨openDeletion_closable s name,openDeletion_nextStart s name⟩
  | closes name => exact ⟨(closeDeletion_steady s name).closable,(closeDeletion_steady s name).nextStart⟩
  | keeps piece => exact ⟨emitIfKept_closable s piece,emitIfKept_nextStart s piece⟩
  | ends name raw => exact ⟨(endTag_settles s name raw).closable,(endTag_settles s name raw).nextStart⟩
  | enters tag =>
      unfold perform enter
      dsimp only
      split
      · exact ⟨emitIfKept_closable s _,emitIfKept_nextStart s _⟩
      · exact ⟨emitIfKept_closable s _,emitIfKept_nextStart s _⟩

theorem performAll_counter (rows : List (Nat × Operation)) : (s.performAll (rows.map (·.2))).closable = s.closable ∧
    (s.performAll (rows.map (·.2))).nextStart = s.nextStart + (opensOf rows).length := by
  induction rows generalizing s with
  | nil => exact ⟨rfl,rfl⟩
  | cons row rest ih =>
      obtain ⟨closable,nextStart⟩ := perform_counter s row.2
      obtain ⟨restClosable,restStart⟩ := ih (s.perform row.2)
      refine ⟨restClosable.trans closable,?_⟩
      have opens : (opensOf (row :: rest)).length = row.2.opened?.toList.length + (opensOf rest).length := by
        unfold opensOf
        cases found : row.2.opened? <;> simp [found,Nat.add_comm]
      rw [opens,← Nat.add_assoc,← nextStart]
      exact restStart

end Counter

end Stripper

section Scripts

theorem script_operations (tokens : List Token) :
    (script tokens).map (·.2) = tokens.flatMap Token.operations := by
  rw [script,List.map_flatMap]
  simp only [List.map_map,Function.comp_def,List.map_id']
  rw [← List.flatMap_map,List.zipIdx_map_fst]

theorem performAll_tokens (tokens : List Token) (s : Stripper) :
    s.performAll (tokens.flatMap Token.operations) = tokens.foldl Stripper.step s := by
  induction tokens generalizing s with
  | nil => rfl
  | cons t rest ih =>
      rw [List.flatMap_cons,Stripper.performAll_append,Stripper.step_operations]
      exact ih (s.step t)

theorem opened_only (names : List (List Char)) : (names.map Operation.opens).filterMap Operation.opened? = names := by
  simp [List.filterMap_map,Function.comp_def,Operation.opened?]

theorem filterMap_opened_eq_nil {operations : List Operation} (others : ∀ operation ∈ operations, operation.opened? = none) :
    operations.filterMap Operation.opened? = [] := List.filterMap_eq_nil_iff.mpr others

theorem operations_opened (t : Token) : t.operations.filterMap Operation.opened? = t.boundaries.starts := by
  cases t with
  | text content | other content | closing written tail => rfl
  | opening tag =>
      have counting : ∀ operation ∈ tag.markers.map Marker.counting, operation.opened? = none := by
        intro operation member
        obtain ⟨marker,_,rfl⟩ := List.mem_map.mp member
        cases marker <;> rfl
      have closing : ∀ names : List (List Char), ∀ operation ∈ names.map Operation.closes, operation.opened? = none := by
        intro names operation member
        obtain ⟨name,_,rfl⟩ := List.mem_map.mp member
        rfl
      unfold Token.operations Token.boundaries StartTag.operations StartTag.boundaries
      cases here : tag.markerElement? with
      | some marker =>
          cases deletion : isDeletion tag.suggestionName <;> cases marker <;>
            simp [here,deletion,Operation.opened?,List.filterMap_cons]
      | none =>
          have enters (operations : List Operation) : (Operation.enters tag :: operations).filterMap Operation.opened? =
              operations.filterMap Operation.opened? := rfl
          simp only [here]
          rw [List.filterMap_append,List.filterMap_append,filterMap_opened_eq_nil counting,opened_only,enters,List.filterMap_append,
            opened_only]
          cases tag.isVoid with
          | true =>
              rw [if_pos rfl,filterMap_opened_eq_nil (closing _)]
              simp
          | false => simp

theorem opensOf_script (tokens : List Token) : opensOf (script tokens) = deletionStarts tokens := by
  rw [opensOf,script,List.filterMap_flatMap,deletionStarts,placed]
  congr 1
  funext row
  have own := congrArg (List.map (row.2,·)) (operations_opened row.1)
  rw [List.map_filterMap] at own
  rw [List.filterMap_map]
  exact own

theorem opensOf_append (rows more : List (Nat × Operation)) : opensOf (rows ++ more) = opensOf rows ++ opensOf more :=
  List.filterMap_append

-- The pass meets the starts that the survey found, in its order, and no others: its script performs the
-- pass from any state, only opening a start moves the counter, and the starts that are opened are those of
-- the survey, with their tokens. So wherever a start is opened the counter stands at the entry of that very
-- start, within the table, and at the end of the document it stands at the end of the table.
theorem passes_agree (tokens : List Token) :
    surveyed tokens = closableStarts tokens ∧ (surveyed tokens).length = (surveyOf tokens).starts.length ∧
    (∀ s : Stripper, s.performAll ((script tokens).map (·.2)) = tokens.foldl Stripper.step s) ∧
    (∀ (s : Stripper) operation, (s.perform operation).nextStart = s.nextStart + operation.opened?.toList.length) ∧
    opensOf (script tokens) = (surveyOf tokens).starts ∧
    (∀ before place name after, script tokens = before ++ (place,.opens name) :: after →
      let s := (Stripper.start (surveyed tokens)).performAll (before.map (·.2))
      s.closable = surveyed tokens ∧ (surveyOf tokens).starts[s.nextStart]? = some (place,name) ∧
        s.nextStart < (surveyed tokens).length) ∧
    (resolve tokens).nextStart = (surveyed tokens).length := by
  have same := opensOf_script tokens
  have size : (surveyed tokens).length = (surveyOf tokens).starts.length := by
    rw [surveyed_closableStarts,surveyOf_starts]
    exact closableAmong_length _ _
  refine ⟨surveyed_closableStarts tokens,size,?_,fun s operation => (Stripper.perform_counter s operation).2,
    by rw [same,surveyOf_starts],?_,?_⟩
  · intro s
    rw [script_operations]
    exact performAll_tokens tokens s
  · intro before place name after here
    obtain ⟨closable,nextStart⟩ := Stripper.performAll_counter (Stripper.start (surveyed tokens)) before
    have counter : (Stripper.start (surveyed tokens)).nextStart + (opensOf before).length = (opensOf before).length :=
      Nat.zero_add _
    have starts : (surveyOf tokens).starts = opensOf before ++ (place,name) :: opensOf after := by
      rw [surveyOf_starts,← same,here,opensOf_append]
      rfl
    refine ⟨closable,?_,?_⟩
    · rw [nextStart,counter,starts,List.getElem?_append_right (Nat.le_refl _),Nat.sub_self]
      rfl
    · rw [nextStart,counter,size,starts,List.length_append,List.length_cons]
      omega
  · have finished : (resolve tokens).nextStart = (readThrough tokens).nextStart := (Stripper.closeImplied_steady _ _).nextStart
    have read : readThrough tokens =
        (Stripper.start (closableStarts tokens)).performAll ((script tokens).map (·.2)) := by
      rw [script_operations,performAll_tokens]
      rfl
    rw [finished,read,(Stripper.performAll_counter _ _).2,same,size,surveyOf_starts]
    exact Nat.zero_add _

end Scripts

end Redline.Markup
