import Redline.Http.Service
import Redline.Proofs.Units
import Redline.Proofs.WrittenEmbeds

namespace Redline

open Text
open Revision (splitParts_clear splitParts_here)

section Entries

variable {separator : Char}

theorem joinWith_middle (before : List (List Char)) (piece : List Char) (after : List (List Char)) :
    joinWith [separator] (before ++ piece :: after) =
      before.flatMap (· ++ [separator]) ++ (piece ++ after.flatMap (separator :: ·)) := by
  induction before with
  | nil => rfl
  | cons first rest ih =>
      have next : joinWith [separator] (first :: (rest ++ piece :: after)) =
          first ++ separator :: joinWith [separator] (rest ++ piece :: after) := by
        cases rest <;> simp [joinWith]
      rw [List.cons_append,next,ih]
      simp

theorem splitOn_append (front rest : List Char) :
    splitOn separator (front ++ separator :: rest) = splitOn separator front ++ splitOn separator rest := by
  induction front with
  | nil => simp [splitOn,splitParts]
  | cons c front ih =>
      simp only [splitOn,List.cons_append,splitParts] at ih ⊢
      obtain ⟨piece,pieces⟩ := List.cons.inj ih
      rw [piece,pieces]
      split <;> rfl

theorem splitOn_clear {piece text : List Char} (member : piece ∈ splitOn separator text) : separator ∉ piece := by
  induction text generalizing piece with
  | nil =>
      rw [List.mem_singleton.mp member]
      exact List.not_mem_nil
  | cons c text ih =>
      have later : ∀ p, p ∈ (splitParts separator text).1 :: (splitParts separator text).2 → separator ∉ p := fun p => ih
      rw [List.forall_mem_cons] at later
      simp only [splitOn,splitParts] at member
      split at member
      · rcases List.mem_cons.mp member with rfl | other
        · exact List.not_mem_nil
        · exact ih other
      · rename_i plain
        rcases List.mem_cons.mp member with rfl | other
        · exact fun here => (List.mem_cons.mp here).elim (Ne.symm plain) later.1
        · exact later.2 piece other

theorem mem_splitOn {piece text : List Char} : piece ∈ splitOn separator text ↔ separator ∉ piece ∧
    ∃ front back, text = front ++ (piece ++ back) ∧ (∀ c ∈ front.getLast?, c = separator) ∧
      ∀ c ∈ back.head?, c = separator := by
  constructor
  · intro member
    refine ⟨splitOn_clear member,?_⟩
    obtain ⟨before,after,eq⟩ := List.append_of_mem member
    refine ⟨before.flatMap (· ++ [separator]),after.flatMap (separator :: ·),?_,?_,?_⟩
    · rw [← joinWith_middle,← eq,joinWith_splitOn]
    · rcases List.eq_nil_or_concat before with rfl | ⟨init,last,rfl⟩ <;> simp
    · cases after <;> simp
  · rintro ⟨clear,front,back,rfl,first,last⟩
    have here : piece ∈ splitOn separator (piece ++ back) := by
      cases back with
      | nil => simp [splitOn,splitParts_clear clear]
      | cons c back =>
          rw [last c rfl,splitOn,splitParts_here back clear]
          exact List.mem_cons_self
    rcases List.eq_nil_or_concat front with rfl | ⟨init,c,rfl⟩
    · exact here
    · rw [List.concat_eq_append,first c (by simp),List.append_assoc,List.singleton_append,splitOn_append]
      exact List.mem_append_right _ here

theorem trim_parts (text : List Char) : ∃ front back, text = front ++ (trim text ++ back) ∧
    front.all isBlank = true ∧ back.all isBlank = true := by
  refine ⟨text.takeWhile isBlank,((trimStart text).reverse.takeWhile isBlank).reverse,?_,List.all_takeWhile,?_⟩
  · rw [trim,trimEnd_append]
    exact List.takeWhile_append_dropWhile.symm
  · rw [List.all_reverse]
    exact List.all_takeWhile

theorem trim_eq_singleton {c : Char} (solid : isBlank c = false) {text : List Char} : trim text = [c] ↔
    ∃ front back, text = front ++ c :: back ∧ front.all isBlank = true ∧ back.all isBlank = true := by
  constructor
  · intro same
    obtain ⟨front,back,eq,before,behind⟩ := trim_parts text
    rw [same,List.singleton_append] at eq
    exact ⟨front,back,eq,before,behind⟩
  · rintro ⟨front,back,rfl,before,behind⟩
    rw [← List.singleton_append,trim_padded [c] before behind]
    exact trim_solid rfl rfl ⟨solid,solid⟩

end Entries

theorem Attempt.bind_done {α β : Type} {x : Attempt α} {f : α → Attempt β} {b : β} (done : x >>= f = .ok b) :
    ∃ a, x = .ok a ∧ f a = .ok b := by
  cases x with
  | error failure => cases done
  | ok a => exact ⟨a,rfl,done⟩

namespace Settings

theorem ofVariables_fields {vars : Variables} {settings : Settings} (read : ofVariables vars = .ok settings) :
    settings.allowedOrigins = ((vars.lookup "CORS_ALLOWED_ORIGINS").map origins).getD ["*"] ∧
      settings.environment = filled? vars "CKEDITOR_ENVIRONMENT_ID" ∧
      settings.accessKey = filled? vars "CKEDITOR_ACCESS_KEY" := by
  unfold ofVariables at read
  obtain ⟨_,_,read⟩ := Attempt.bind_done read
  obtain ⟨_,_,read⟩ := Attempt.bind_done read
  obtain ⟨_,_,read⟩ := Attempt.bind_done read
  obtain ⟨_,_,read⟩ := Attempt.bind_done read
  obtain ⟨_,_,read⟩ := Attempt.bind_done read
  cases read
  exact ⟨rfl,rfl,rfl⟩

theorem filled?_solid {vars : Variables} {name value : String} (filled : filled? vars name = some value) :
    ∃ c ∈ value.toList, isBlank c = false := by
  have solid := (Option.filter_eq_some_iff.mp filled).2
  rw [Bool.not_eq_true',allBlank,List.all_eq_false] at solid
  simpa using solid

-- An entry of the setting that is a single asterisk, blanks aside.
def StarEntry (value : List Char) : Prop :=
  ∃ front gap gap' back, value = front ++ (gap ++ '*' :: gap' ++ back) ∧
    gap.all isBlank = true ∧ gap'.all isBlank = true ∧
    (∀ c ∈ front.getLast?, c = ',') ∧ ∀ c ∈ back.head?, c = ','

theorem mem_origins {value : String} : "*" ∈ origins value ↔ StarEntry value.toList := by
  have star : ∀ piece, String.ofList (trim piece) = "*" ↔ trim piece = ['*'] := by
    intro piece
    rw [← String.toList_inj,String.toList_ofList]
    rfl
  simp only [origins,List.mem_map,star,trim_eq_singleton (by decide : isBlank '*' = false),mem_splitOn]
  constructor
  · rintro ⟨_,⟨_,front,back,eq,first,last⟩,gap,gap',rfl,before,behind⟩
    exact ⟨front,gap,gap',back,eq,before,behind,first,last⟩
  · rintro ⟨front,gap,gap',back,eq,before,behind,first,last⟩
    refine ⟨gap ++ '*' :: gap',⟨?_,front,back,eq,first,last⟩,gap,gap',rfl,before,behind⟩
    have absent : ∀ gap : List Char, gap.all isBlank = true → ',' ∉ gap := by
      intro gap blanks member
      exact absurd (List.all_eq_true.mp blanks ',' member) (by decide)
    simp [absent gap before,absent gap' behind]

theorem origins_single {value : String} (single : ',' ∉ value.toList) :
    origins value = [String.ofList (trim value.toList)] := by
  simp [origins,splitOn,splitParts_clear single]

theorem origins_several {value : String} (several : ',' ∈ value.toList) (entry : String) : origins value ≠ [entry] := by
  obtain ⟨front,back,eq⟩ := List.append_of_mem several
  intro single
  have size := congrArg List.length single
  rw [origins,eq,splitOn_append] at size
  simp [splitOn] at size

theorem origins_star {value : String} : origins value = ["*"] ↔ trim value.toList = ['*'] := by
  by_cases several : ',' ∈ value.toList
  · refine iff_of_false (origins_several several "*") fun same => ?_
    have member := mem_trim several (by decide)
    rw [same] at member
    exact absurd member (by decide)
  · rw [origins_single several,List.singleton_inj,← String.toList_inj,String.toList_ofList]
    rfl

end Settings

namespace Http

open Settings

theorem make_refused {origins : List String} {panic : Panic} :
    OriginPolicy.make origins = .error panic ↔ panic = .wildcardAmongOrigins ∧ "*" ∈ origins ∧ origins ≠ ["*"] := by
  have header : isHeaderText "*" = true := by decide
  unfold OriginPolicy.make
  split
  · rename_i alone
    simp [alone]
  · rename_i others
    by_cases star : "*" ∈ origins <;> simp [others,header,star,eq_comm]

theorem make_any {origins : List String} : OriginPolicy.make origins = .ok .any ↔ origins = ["*"] := by
  unfold OriginPolicy.make
  split
  · rename_i alone
    simp [alone]
  · rename_i others
    simp only [others,iff_false]
    split <;> simp

theorem make_listed {origins : List String} (plain : "*" ∉ origins) :
    OriginPolicy.make origins = .ok (.listed (origins.filter isHeaderText)) := by
  have others : origins ≠ ["*"] := by
    rintro rfl
    exact plain List.mem_cons_self
  simp [OriginPolicy.make,others,plain]

theorem setting_refused (setting : Option String) :
    (∃ panic, OriginPolicy.make ((setting.map origins).getD ["*"]) = .error panic) ↔
      ∃ value ∈ setting, ',' ∈ value.toList ∧ StarEntry value.toList := by
  simp only [make_refused,exists_eq_left]
  cases setting with
  | none => simp
  | some value =>
      simp only [Option.map_some,Option.getD_some,Option.mem_some_iff,exists_eq_left',mem_origins]
      constructor
      · rintro ⟨star,others⟩
        refine ⟨?_,star⟩
        by_contra single
        have alone := mem_origins.mpr star
        rw [origins_single single] at alone others
        exact others (by rw [List.mem_singleton.mp alone])
      · rintro ⟨several,star⟩
        exact ⟨star,origins_several several "*"⟩

theorem setting_any (setting : Option String) :
    OriginPolicy.make ((setting.map origins).getD ["*"]) = .ok .any ↔ ∀ value ∈ setting, trim value.toList = ['*'] := by
  rw [make_any]
  cases setting with
  | none => exact iff_of_true rfl nofun
  | some value => simpa using origins_star

-- The names of the tokens are checked where the settings are read.
theorem tokensOf_read {vars : Variables} {settings : Settings} (read : ofVariables vars = .ok settings) :
    ∃ tokens, tokensOf settings = .ok tokens := by
  obtain ⟨_,named,keyed⟩ := ofVariables_fields read
  unfold tokensOf
  split
  · rename_i environment key environment_ key_
    obtain ⟨_,member,_⟩ := filled?_solid (keyed.symm.trans key_)
    have filled : key ≠ "" := by
      rintro rfl
      cases member
    rw [Access.TokenService.make_filled settings.defaultRole (filled?_solid (named.symm.trans environment_)) filled]
    exact ⟨_,rfl⟩
  · exact ⟨none,rfl⟩

theorem make_read {vars : Variables} {settings : Settings} (read : ofVariables vars = .ok settings)
    (exportPlace : Files.Location) : match OriginPolicy.make settings.allowedOrigins with
      | .ok policy => ∃ service, Service.make settings exportPlace = .ok service ∧ service.origins = policy
      | .error panic => Service.make settings exportPlace = .error (.panicked panic) := by
  obtain ⟨tokens,set⟩ := tokensOf_read read
  unfold Service.make
  rw [set]
  cases OriginPolicy.make settings.allowedOrigins with
  | ok policy => exact ⟨_,rfl,rfl⟩
  | error panic => rfl

-- Which settings make a service. Whatever the other variables say, the start ends in a panic exactly where
-- the value holds a comma and an entry that is a single asterisk. Every origin is allowed where the
-- variable is not set or its value is the asterisk, and otherwise the entries that a header can hold, in
-- order.
theorem origins_accepted_iff {vars : Variables} {settings : Settings} (read : ofVariables vars = .ok settings)
    (exportPlace : Files.Location) :
    ((∃ service, Service.make settings exportPlace = .ok service) ↔
      ∀ value ∈ vars.lookup "CORS_ALLOWED_ORIGINS", ¬(',' ∈ value.toList ∧ StarEntry value.toList)) ∧
    (∀ stop, Service.make settings exportPlace = .error stop → stop = .panicked .wildcardAmongOrigins) ∧
    ∀ service, Service.make settings exportPlace = .ok service →
      (service.origins = .any ↔ ∀ value ∈ vars.lookup "CORS_ALLOWED_ORIGINS", trim value.toList = ['*']) ∧
      ∀ value ∈ vars.lookup "CORS_ALLOWED_ORIGINS", ¬StarEntry value.toList →
        service.origins = .listed ((origins value).filter isHeaderText) := by
  have made := make_read read exportPlace
  rw [(ofVariables_fields read).1] at made
  have refused := setting_refused (vars.lookup "CORS_ALLOWED_ORIGINS")
  cases policy : OriginPolicy.make (((vars.lookup "CORS_ALLOWED_ORIGINS").map origins).getD ["*"]) with
  | error panic =>
      rw [policy] at made
      obtain ⟨rfl,_⟩ := make_refused.mp policy
      obtain ⟨value,set,several⟩ := refused.mp ⟨_,policy⟩
      refine ⟨iff_of_false ?_ fun clear => clear value set several,?_,?_⟩
      · rintro ⟨service,started⟩
        cases made.symm.trans started
      · rintro stop stopped
        cases made.symm.trans stopped
        rfl
      · rintro service started
        cases made.symm.trans started
  | ok policy' =>
      rw [policy] at made
      obtain ⟨service,started,own⟩ := made
      refine ⟨iff_of_true ⟨service,started⟩ ?_,?_,?_⟩
      · intro value set several
        obtain ⟨panic,odd⟩ := refused.mpr ⟨value,set,several⟩
        cases policy.symm.trans odd
      · rintro stop stopped
        cases started.symm.trans stopped
      · rintro service' started'
        cases started.symm.trans started'
        rw [own]
        refine ⟨?_,fun value set plain => ?_⟩
        · rw [← setting_any,policy,Except.ok.injEq]
        · rw [set,Option.map_some,Option.getD_some,make_listed (mt mem_origins.mp plain)] at policy
          exact (Except.ok.inj policy).symm

theorem origins_accepted_iff_entries :
    let vars : Variables := [("PORT","80"),("CORS_ALLOWED_ORIGINS","https://a.org, ,https://b\u00e9.org ,*.c.org")]
    ∃ settings service, ofVariables vars = .ok settings ∧ settings.port = 80 ∧
      Service.make settings ⟨"/srv",["srv"]⟩ = .ok service ∧
      service.origins = .listed ["https://a.org","","*.c.org"] := by
  intro vars
  obtain ⟨settings,read,port⟩ : ∃ settings, ofVariables vars = .ok settings ∧ settings.port = 80 := ⟨_,rfl,rfl⟩
  have plain : ∀ value ∈ vars.lookup "CORS_ALLOWED_ORIGINS", ¬StarEntry value.toList := by
    rintro value ⟨rfl⟩
    exact mt mem_origins.mpr (by decide +kernel)
  obtain ⟨made,_,policy⟩ := origins_accepted_iff read ⟨"/srv",["srv"]⟩
  obtain ⟨service,started⟩ := made.mpr fun value set star => plain value set star.2
  refine ⟨settings,service,read,port,started,?_⟩
  rw [(policy service started).2 _ rfl (plain _ rfl)]
  decide

theorem star_among_origins_refused : ∃ settings,
    ofVariables [("CORS_ALLOWED_ORIGINS","*, https://a.org")] = .ok settings ∧
      settings.allowedOrigins = ["*","https://a.org"] ∧
      ∀ exportPlace, Service.make settings exportPlace = .error (.panicked .wildcardAmongOrigins) := by
  obtain ⟨settings,read,listed⟩ : ∃ settings,
      ofVariables [("CORS_ALLOWED_ORIGINS","*, https://a.org")] = .ok settings ∧
        settings.allowedOrigins = ["*","https://a.org"] := ⟨_,rfl,by decide +kernel⟩
  refine ⟨settings,read,listed,fun exportPlace => ?_⟩
  have made := make_read read exportPlace
  rw [listed,make_refused.mpr ⟨rfl,by decide,by decide⟩] at made
  exact made

end Http

end Redline
