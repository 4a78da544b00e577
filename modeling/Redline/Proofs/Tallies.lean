import Redline.Proofs.Markers

namespace Redline.Markup

open Redline.Text

inductive MarkerKind where
  | comment
  | suggestion
deriving DecidableEq, Inhabited

def MarkerElement.kind : MarkerElement → MarkerKind
  | .commentStart | .commentEnd => .comment
  | .suggestionStart | .suggestionEnd => .suggestion

def Marker.kind : Marker → MarkerKind
  | .comment => .comment
  | .suggestion _ _ => .suggestion

-- A marker element is one marker; any other element has as many as it has marker attributes.
def StartTag.kinds (tag : StartTag) : List MarkerKind :=
  match tag.markerElement? with
  | some marker => [marker.kind]
  | none => tag.markers.map Marker.kind

def Token.kinds : Token → List MarkerKind
  | .opening tag => tag.kinds
  | _ => []

-- The end tag of a marker element.
def Token.endsMarker : Token → Bool
  | .closing written _ => (MarkerElement.ofName? (lower written)).isSome
  | _ => false

def Stats.count (stats : Stats) : MarkerKind → Nat
  | .comment => stats.commentMarkers
  | .suggestion => stats.suggestionMarkers

theorem markers_nil {tag : StartTag} : tag.markers = [] ↔ tag.parts.any (·.marker?.isSome) = false := by
  simp [StartTag.markers]

theorem kinds_nil {tag : StartTag} :
    tag.kinds = [] ↔ tag.markerElement? = none ∧ tag.parts.any (·.marker?.isSome) = false := by
  unfold StartTag.kinds
  split
  · rename_i marker here
    simp [here]
  · rename_i ordinary
    rw [List.map_eq_nil_iff,markers_nil]
    simp [ordinary]

-- Review markup is a marker that counts or an end tag that does not.
theorem marked_iff (t : Token) : t.marked = false ↔ t.kinds = [] ∧ t.endsMarker = false := by
  cases t with
  | text content | other content => exact iff_of_true rfl ⟨rfl,rfl⟩
  | closing written tail => exact (and_iff_right rfl).symm
  | opening tag => simp [Token.marked,Token.kinds,Token.endsMarker,kinds_nil]

theorem Stats.isEmpty_iff (stats : Stats) : stats.isEmpty = true ↔ stats = {} := decide_eq_true_iff

namespace Stripper
variable (s : Stripper) (kind : MarkerKind)

section Steps

theorem countComment_count : s.countComment.stats.count kind = s.stats.count kind + [MarkerKind.comment].count kind := by
  cases kind <;> rfl

theorem countSuggestion_count :
    s.countSuggestion.stats.count kind = s.stats.count kind + [MarkerKind.suggestion].count kind := by
  cases kind <;> rfl

theorem countMarkers_count (markers : List Marker) : (markers.foldl countMarker s).stats.count kind =
    s.stats.count kind + (markers.map Marker.kind).count kind := by
  induction markers generalizing s with
  | nil => rfl
  | cons marker rest ih =>
      have first : (s.countMarker marker).stats.count kind = s.stats.count kind + [marker.kind].count kind := by
        cases marker with
        | comment => exact countComment_count s kind
        | suggestion anchor names => exact countSuggestion_count s kind
      rw [List.foldl_cons,ih,first,Nat.add_assoc,← List.count_append,List.map_cons,List.singleton_append]

theorem openDeletion_count (name : List Char) : (s.openDeletion name).stats.count kind = s.stats.count kind := by
  unfold openDeletion
  dsimp only
  split <;> cases kind <;> rfl

theorem openDeletions_count (names : List (List Char)) :
    (s.openDeletions names).stats.count kind = s.stats.count kind := by
  induction names generalizing s with
  | nil => rfl
  | cons name rest ih => exact (ih (s.openDeletion name)).trans (openDeletion_count s kind name)

theorem markerElement_count (tag : StartTag) (marker : MarkerElement) :
    (s.markerElement tag marker).stats.count kind = s.stats.count kind + [marker.kind].count kind := by
  cases marker with
  | commentStart | commentEnd => exact countComment_count s kind
  | suggestionStart =>
      unfold markerElement
      dsimp only
      split
      · rw [openDeletion_count,countSuggestion_count]
        rfl
      · exact countSuggestion_count s kind
  | suggestionEnd =>
      unfold markerElement
      dsimp only
      split
      · rw [(closeDeletion_steady _ _).stats,countSuggestion_count]
        rfl
      · exact countSuggestion_count s kind

theorem opened_count (tag : StartTag) : (s.opened tag).stats.count kind =
    s.stats.count kind + (tag.markers.map Marker.kind).count kind := by
  rw [opened,openDeletions_count,emitIfKept_stats,openDeletions_count,countMarkers_count]

theorem element_stats (tag : StartTag) : (s.element tag).stats = (s.opened tag).stats := by
  cases void : tag.isVoid with
  | true => rw [element_void s tag void,(closeDeletions_steady _ _).stats]
  | false => rw [element_open s tag void]

theorem step_count (t : Token) : (s.step t).stats.count kind = s.stats.count kind + t.kinds.count kind := by
  cases t with
  | text content | other content => rw [step,emitIfKept_stats]; rfl
  | closing name tail => rw [step,endTag_stats]; rfl
  | opening tag =>
      simp only [step,startTag,Token.kinds,StartTag.kinds]
      cases tag.markerElement? with
      | some marker => exact markerElement_count s kind tag marker
      | none =>
          dsimp only
          rw [element_stats,opened_count]

theorem step_idle {t : Token} (none_ : t.kinds = []) : (s.step t).stats = s.stats := by
  cases t with
  | text content | other content => exact emitIfKept_stats s _
  | closing name tail => exact endTag_stats s _ _
  | opening tag =>
      obtain ⟨ordinary,plain⟩ := kinds_nil.mp none_
      obtain ⟨_,unmarked,nowhere⟩ := StartTag.cleaned_unmarked plain
      simp only [step,startTag,ordinary]
      rw [element_stats,opened,nowhere,nowhere,unmarked]
      exact emitIfKept_stats s _

end Steps

section Runs

theorem run_count (tokens : List Token) : (tokens.foldl step s).stats.count kind =
    s.stats.count kind + (tokens.flatMap Token.kinds).count kind := by
  induction tokens generalizing s with
  | nil => rfl
  | cons t rest ih => rw [List.foldl_cons,ih,step_count,List.flatMap_cons,List.count_append,Nat.add_assoc]

theorem run_idle {tokens : List Token} (none_ : ∀ t ∈ tokens, t.kinds = []) : (tokens.foldl step s).stats = s.stats := by
  induction tokens generalizing s with
  | nil => rfl
  | cons t rest ih =>
      obtain ⟨here,later⟩ := List.forall_mem_cons.mp none_
      rw [List.foldl_cons,ih (s.step t) later,step_idle s here]

end Runs

end Stripper

section Documents

theorem stripChars_stats (text : List Char) : (stripChars text).stats = (readThrough (tokenize text)).stats := by
  have finished : (resolve (tokenize text)).stats = (readThrough (tokenize text)).stats :=
    (Stripper.closeImplied_steady _ _).stats
  unfold stripChars
  split
  · exact finished
  · rename_i quiet
    rw [Bool.not_eq_true] at quiet
    rw [← finished,resolve_uncounted (unmentioned_unmarked quiet)]

theorem stats_count (text : List Char) (kind : MarkerKind) :
    (stripChars text).stats.count kind = ((tokenize text).flatMap Token.kinds).count kind := by
  rw [stripChars_stats,readThrough,Stripper.run_count]
  cases kind <;> exact Nat.zero_add _

theorem stats_isEmpty_iff (text : List Char) :
    (stripChars text).stats.isEmpty = true ↔ ∀ t ∈ tokenize text, t.kinds = [] := by
  rw [Stats.isEmpty_iff]
  constructor
  · intro empty
    rw [← List.flatMap_eq_nil_iff,List.eq_nil_iff_forall_not_mem]
    intro kind
    rw [← List.count_eq_zero,← stats_count text kind,empty]
    cases kind <;> rfl
  · intro none_
    rw [stripChars_stats,readThrough,Stripper.run_idle _ none_]
    rfl

theorem unmarked_iff (tokens : List Token) :
    Unmarked tokens ↔ (∀ t ∈ tokens, t.kinds = []) ∧ ∀ t ∈ tokens, t.endsMarker = false := by
  simp only [Unmarked,marked_iff,imp_and,forall_and]

-- A document comes back whole exactly where the counters are at zero and it holds no end tag of a marker
-- element. So the counters tell whether anything went, but for documents whose only markup is such end
-- tags. The counters of markers are exact in any case.
theorem stats_tell_iff (html : String) :
    (strip html = html ↔
      (stripStats html).isEmpty = true ∧ ∀ t ∈ tokenize html.toList, t.endsMarker = false) ∧
    (((stripStats html).isEmpty = true ↔ strip html = html) ↔
      (∃ t ∈ tokenize html.toList, t.kinds ≠ []) ∨ ∀ t ∈ tokenize html.toList, t.endsMarker = false) ∧
    ∀ kind, (stripStats html).count kind = ((tokenize html.toList).flatMap Token.kinds).count kind := by
  have empty : (stripStats html).isEmpty = true ↔ ∀ t ∈ tokenize html.toList, t.kinds = [] :=
    stats_isEmpty_iff html.toList
  have same : strip html = html ↔
      (∀ t ∈ tokenize html.toList, t.kinds = []) ∧ ∀ t ∈ tokenize html.toList, t.endsMarker = false := by
    rw [← unmarked_iff,← strip_same_iff,strip,← String.toList_inj,String.toList_ofList]
  refine ⟨by rw [empty,same],?_,stats_count html.toList⟩
  rw [empty,same]
  constructor
  · intro tells
    by_cases none_ : ∀ t ∈ tokenize html.toList, t.kinds = []
    · exact .inr (tells.mp none_).2
    · exact .inl (by simpa using none_)
  · rintro (⟨t,member,marker⟩ | noEnds)
    · have some_ : ¬∀ t ∈ tokenize html.toList, t.kinds = [] := fun none_ => marker (none_ t member)
      exact iff_of_false some_ fun none_ => some_ none_.1
    · exact (and_iff_left noEnds).symm

theorem lone_end_tag_unreported :
    strip "</comment-start>" = "" ∧ stripStats "</comment-start>" = {} ∧
      ¬((stripStats "</comment-start>").isEmpty = true ↔ strip "</comment-start>" = "</comment-start>") := by
  decide

end Documents

end Redline.Markup
