import Redline.Proofs.Audiences
import Redline.Proofs.Documents

namespace Redline.Access

open Json Text

namespace Claims

section Reading

theorem ofWord?_word (role : Role) : Role.ofWord? role.word = some role := by
  cases role <;> rfl

def grantRow (row : String × Role) : String × Value := (row.1,grantValue row.2)

theorem read_grant (role : Role) (depth : Nat) : grantShape.read (depth + 1) (grantValue role).outline = .ok (grantValue role) := by
  cases role <;> rfl

theorem read_grants (depth : Nat) (grants : Table String Role) (known : List (String × Value))
    (ascending : ((known ++ grants.map grantRow).map Prod.fst).Pairwise (· < ·)) :
    Shape.readRows (depth + 1) grantShape known (Value.outlineRows (grants.map grantRow)) =
      .ok (known ++ grants.map grantRow) := by
  induction grants generalizing known with
  | nil => rw [List.map_nil,List.append_nil]; rfl
  | cons row rest ih =>
      obtain ⟨channel,role⟩ := row
      have last : ∀ row ∈ known, KeyOrder.before row.1 channel = true := by
        intro row member
        rw [List.map_append,List.pairwise_append] at ascending
        exact decide_eq_true (ascending.2.2 row.1 (List.mem_map_of_mem member) channel (.head _))
      have behind := ih (known ++ [(channel,grantValue role)]) (by simpa [grantRow] using ascending)
      rw [List.append_assoc] at behind
      change (Shape.read (depth + 1) grantShape (grantValue role).outline >>= fun value =>
        Shape.readRows (depth + 1) grantShape (Table.insert channel value known)
          (Value.outlineRows (rest.map grantRow))) = _
      rw [read_grant]
      change Shape.readRows (depth + 1) grantShape (Table.insert channel (grantValue role) known)
        (Value.outlineRows (rest.map grantRow)) = _
      rw [Table.insert_last last,behind]
      rfl

theorem read_user (user : Profile) (depth : Nat) : userShape.read (depth + 1) user.toValue.outline = .ok user.toValue := by
  obtain ⟨id,name,email,avatar⟩ := user
  cases name <;> cases email <;> cases avatar <;> rfl

theorem userOf?_toValue (user : Profile) : userOf? user.toValue = some user := by
  obtain ⟨id,name,email,avatar⟩ := user
  cases name <;> cases email <;> cases avatar <;> rfl

theorem grantsOf_rows (grants : Table String Role) : (grants.map grantRow).mapM grantOf? = some grants := by
  induction grants with
  | nil => rfl
  | cons row rest ih =>
      have own : grantOf? (grantRow row) = some row := by
        change ((Role.ofWord? row.2.word).bind fun role => some (row.1,role)) = some row
        rw [ofWord?_word]
        rfl
      rw [List.map_cons,List.mapM_cons,own,ih]
      rfl

-- Claims as a program can hold them: the time of issue has sixty-four bits, each channel one role.
structure Sound (claims : Claims) : Prop where
  issued : -(Int.pow 2 63) ≤ claims.issuedAt ∧ claims.issuedAt ≤ Int.pow 2 63 - 1
  ascending : (claims.grants.map Prod.fst).Pairwise (· < ·)

def writtenMembers (claims : Claims) : List (String × Value) :=
  [("aud",.text claims.audience),("iat",.whole claims.issuedAt),("sub",.text claims.subject),
    ("auth",.object [("collaboration",.object (claims.grants.map grantRow))]),("user",claims.user.toValue)]

variable {claims : Claims} (sound : claims.Sound)

include sound

theorem Sound.issuedAt_whole64 : isWhole64 claims.issuedAt = true := by
  obtain ⟨low,high⟩ := sound.issued
  have least : Int.pow 2 63 = 9223372036854775808 := rfl
  have most : Int.pow 2 64 = 18446744073709551616 := rfl
  simp only [isWhole64,Bool.and_eq_true,decide_eq_true_eq]
  omega

theorem read_toValue : shape.read greatestDepth claims.toValue.outline = .ok claims.toValue := by
  have text (content : String) : Shape.read 126 .text (.text (some content)) = .ok (.text content) := rfl
  have issued : Shape.read 126 (.whole (-(Int.pow 2 63)) (Int.pow 2 63 - 1)) (Value.whole claims.issuedAt).outline =
      .ok (.whole claims.issuedAt) := Entity.read_whole 126 sound.issuedAt_whole64 sound.issued
  have ascending : (([] ++ claims.grants.map grantRow).map Prod.fst).Pairwise (· < ·) := by
    rw [List.nil_append,List.map_map]
    exact sound.ascending
  have grants : Shape.read 125 (.mapping grantShape) (Value.object (claims.grants.map grantRow)).outline =
      .ok (.object (claims.grants.map grantRow)) := by
    rw [Value.outline,Shape.read,if_neg (by decide),read_grants 123 claims.grants [] ascending]
    rfl
  have access : Shape.read 126 (.record [Field.required "collaboration" (.mapping grantShape)])
      (Value.object [("collaboration",.object (claims.grants.map grantRow))]).outline =
      .ok (.object [("collaboration",.object (claims.grants.map grantRow))]) :=
    read_record (readMembers_known rfl rfl grants []) rfl
  have user := read_user claims.user 125
  have filled : Shape.readMembers 126 fields [] (Value.outlineRows claims.writtenMembers) =
      .ok [("user",claims.user.toValue),("auth",.object [("collaboration",.object (claims.grants.map grantRow))]),
        ("sub",.text claims.subject),("iat",.whole claims.issuedAt),("aud",.text claims.audience)] := by
    rw [writtenMembers,Value.outlineRows,Value.outline,readMembers_known rfl rfl (text claims.audience),
      Value.outlineRows,readMembers_known rfl rfl issued,Value.outlineRows,Value.outline,
      readMembers_known rfl rfl (text claims.subject),Value.outlineRows,readMembers_known rfl rfl access,
      Value.outlineRows,readMembers_known rfl rfl user]
    rfl
  exact read_record filled rfl

omit sound in
theorem ofValue?_toValue (claims : Claims) : ofValue? claims.toValue = some claims := by
  have first : claims.toValue.member? "aud" = some (.text claims.audience) := rfl
  have second : claims.toValue.member? "iat" = some (.whole claims.issuedAt) := rfl
  have third : claims.toValue.member? "sub" = some (.text claims.subject) := rfl
  have fourth : claims.toValue.member? "auth" =
    some (.object [("collaboration",.object (claims.grants.map grantRow))]) := rfl
  have inner : (Value.object [("collaboration",.object (claims.grants.map grantRow))]).member? "collaboration" =
    some (.object (claims.grants.map grantRow)) := rfl
  have last : claims.toValue.member? "user" = some claims.user.toValue := rfl
  simp only [ofValue?,first,second,third,fourth,inner,last,Option.bind_eq_bind,Option.bind_some,Value.text?,Value.whole,
    Value.whole?,Value.members,grantsOf_rows,userOf?_toValue]
  rfl

theorem ofBytes?_compact : ofBytes? (utf8 claims.toValue.compact) = some claims := by
  have outlined := ofText_line claims.toValue
  rw [Value.line,String.toList_ofList] at outlined
  have read : shape.readBytes (utf8 claims.toValue.compact) = .ok claims.toValue := by
    rw [Shape.readBytes,ofBytes_utf8,outlined]
    exact bind_ok.mpr ⟨_,read_toValue sound,rfl⟩
  rw [ofBytes?,read]
  exact ofValue?_toValue claims

omit sound in
theorem registered_compact (claims : Claims) : Registered.ofBytes? (utf8 claims.toValue.compact) =
    some ⟨.absent,.absent,.read claims.subject,.absent,.read [claims.audience]⟩ := by
  have outlined := ofText_line claims.toValue
  rw [Value.line,String.toList_ofList] at outlined
  rw [Registered.ofBytes?,ofBytes_utf8,outlined]
  rfl

end Reading

end Claims

section Cutting

theorem cutLast?_iff {text before after : List Char} :
    cutLast? text = some (before,after) ↔ text = before ++ '.' :: after ∧ '.' ∉ after := by
  have whole := List.takeWhile_append_dropWhile (p := fun c : Char => decide (c ≠ '.')) (l := text.reverse)
  constructor
  · intro cut
    unfold cutLast? at cut
    split at cut
    · cases cut
    · rename_i dot behind left
      cases cut
      have stop : dot = '.' := by
        have head := List.head?_dropWhile_not (fun c : Char => decide (c ≠ '.')) text.reverse
        rw [left] at head
        simpa using head
      subst stop
      rw [left] at whole
      constructor
      · have turned := congrArg List.reverse whole
        rw [List.reverse_append,List.reverse_cons,List.reverse_reverse,List.append_assoc,List.singleton_append] at turned
        exact turned.symm
      · intro member
        have clear := List.all_eq_true.mp List.all_takeWhile _ (List.mem_reverse.mp member)
        exact absurd clear (by decide)
  · rintro ⟨rfl,clear⟩
    have passed : ∀ c ∈ after.reverse, decide (c ≠ '.') = true := by
      intro c member
      apply decide_eq_true
      rintro rfl
      exact clear (List.mem_reverse.mp member)
    have turned : (before ++ '.' :: after).reverse = after.reverse ++ '.' :: before.reverse := by simp
    rw [cutLast?,turned,List.dropWhile_append_of_pos passed,List.takeWhile_append_of_pos passed]
    simp

theorem ofToken?_iff {token : List Char} {parts : Parts} : Parts.ofToken? token = some parts ↔
    token = parts.body ++ '.' :: parts.signature ∧ '.' ∉ parts.signature ∧ '.' ∉ parts.claims := by
  obtain ⟨header,claims,signature⟩ := parts
  unfold Parts.ofToken?
  rw [Option.bind_eq_bind,Option.bind_eq_some_iff]
  constructor
  · rintro ⟨⟨body,last⟩,outer,inner⟩
    obtain ⟨⟨first,second⟩,cut,same⟩ := Option.bind_eq_some_iff.mp inner
    cases same
    obtain ⟨rfl,noDot⟩ := cutLast?_iff.mp outer
    obtain ⟨rfl,noDot'⟩ := cutLast?_iff.mp cut
    exact ⟨rfl,noDot,noDot'⟩
  · rintro ⟨rfl,noDot,noDot'⟩
    refine ⟨_,cutLast?_iff.mpr ⟨rfl,noDot⟩,?_⟩
    exact Option.bind_eq_some_iff.mpr ⟨_,cutLast?_iff.mpr ⟨rfl,noDot'⟩,rfl⟩

end Cutting

theorem algorithmOf?_header : algorithmOf? (utf8 header) = some "HS512" := by
  have shown : header = (Value.object [("typ",.text "JWT"),("alg",.text "HS512")]).compact := by decide
  have outlined := ofText_line (.object [("typ",.text "JWT"),("alg",.text "HS512")])
  rw [Value.line,String.toList_ofList,← shown] at outlined
  rw [algorithmOf?,Shape.readBytes,ofBytes_utf8,outlined]
  rfl

section Checks

theorem orElse_ok {α : Type} {rejection : Rejection} {found : Option α} {a : α} :
    rejection.orElse found = .ok a ↔ found = some a := by
  cases found <;> simp [Rejection.orElse]

theorem ifNot_ok {rejection : Rejection} {holds : Bool} {u : Unit} :
    rejection.ifNot holds = .ok u ↔ holds = true := by
  cases holds <;> simp [Rejection.ifNot]

theorem check_ok {settings : Validation} {registered : Registered} {u : Unit} : settings.check registered = .ok u ↔
    settings.required.all registered.has = true ∧ settings.expired registered = false ∧
      settings.admits registered = true := by
  simp [Validation.check,bind_ok,ifNot_ok]

theorem decode_ok {settings : Validation} {key : String} {token : List Char} {claims : Claims} :
    decode settings key token = .ok claims ↔ ∃ parts header content registered algorithm,
      Parts.ofToken? token = some parts ∧ ofBase64Url? parts.header = some header ∧
      algorithmOf? header = some algorithm ∧ algorithm ∈ settings.algorithms ∧
      parts.signature = signature key parts.body ∧ ofBase64Url? parts.claims = some content ∧
      Claims.ofBytes? content = some claims ∧ Registered.ofBytes? content = some registered ∧
      settings.check registered = .ok () := by
  simp only [decode,bind_ok,orElse_ok,ifNot_ok,List.contains_iff_mem,decide_eq_true_eq]
  constructor
  · rintro ⟨parts,cut,header,unpacked,algorithm,named,_,known,_,signed,content,unpacked',claims',read,registered,read',_,
      checked,⟨⟩⟩
    exact ⟨parts,header,content,registered,algorithm,cut,unpacked,named,known,signed,unpacked',read,read',checked⟩
  · rintro ⟨parts,header,content,registered,algorithm,cut,unpacked,named,known,signed,unpacked',read,read',checked⟩
    exact ⟨parts,cut,header,unpacked,algorithm,named,(),known,(),signed,content,unpacked',claims,read,registered,read',(),
      checked,rfl⟩

end Checks

-- What stands against claims that can be read. In an object their audience must be the environment. In an
-- array the checks look at the place of the user: a list of texts there must hold the environment, and
-- with anything else there the audience does not count.
structure Admitted (environment : String) (claims : Claims) (content : List UInt8) : Prop where
  legible : (Registered.ofBytes? content).isSome = true
  ofObject : ∀ members closed, (Outline.ofBytes content).1 = .object members closed → claims.audience = environment
  ofArray : ∀ items closed, (Outline.ofBytes content).1 = .array items closed →
    ∀ given : List String, items[4]? = some (.array (given.map fun name => .text (some name)) true) → environment ∈ given

namespace TokenService

section Verifying

variable (service : TokenService) {claims : Claims} {content : List UInt8}

theorem check_iff (registered : Registered) : service.validation.check registered = .ok () ↔
    ∀ given, registered.audiences = .read given → service.environment ∈ given := by
  rw [check_ok]
  have unasked : service.validation.required.all registered.has = true := rfl
  have undated : service.validation.expired registered = false := by
    unfold Validation.expired
    split <;> simp_all [validation]
  have named : service.validation.audiences = some [service.environment] := rfl
  simp only [unasked,undated,true_and,Validation.admits,named,Option.getD_some]
  cases registered.audiences <;> simp

theorem admitted_iff (read : Claims.ofBytes? content = some claims) : Admitted service.environment claims content ↔
    ∃ registered, Registered.ofBytes? content = some registered ∧ service.validation.check registered = .ok () := by
  constructor
  · rintro ⟨legible,ofObject,ofArray⟩
    obtain ⟨registered,read'⟩ := Option.isSome_iff_exists.mp legible
    refine ⟨registered,read',(service.check_iff registered).mpr fun given own => ?_⟩
    obtain ⟨inObject,inArray⟩ := audiences_read read read'
    rcases ofBytes?_written read with ⟨members,closed,written,_⟩ | ⟨_,_,_,_,written,_⟩
    · cases (inObject _ _ written).symm.trans own
      exact List.mem_singleton.mpr (ofObject _ _ written).symm
    · exact ofArray _ _ written given ((inArray _ _ written given).mp own)
  · rintro ⟨registered,read',checked⟩
    rw [check_iff] at checked
    obtain ⟨inObject,inArray⟩ := audiences_read read read'
    refine ⟨Option.isSome_iff_exists.mpr ⟨registered,read'⟩,?_,?_⟩
    · intro members closed written
      exact (List.mem_singleton.mp (checked _ (inObject members closed written))).symm
    · intro items closed written given placed
      exact checked given ((inArray items closed written given).mpr placed)

theorem verify_iff {token : List Char} : service.verify token = .ok claims ↔
    ∃ header body content, token = (header ++ '.' :: body) ++ '.' :: signature service.key (header ++ '.' :: body) ∧
      '.' ∉ body ∧ (ofBase64Url? header).bind algorithmOf? = some "HS512" ∧ ofBase64Url? body = some content ∧
      Claims.ofBytes? content = some claims ∧ Admitted service.environment claims content := by
  rw [verify,decode_ok]
  constructor
  · rintro ⟨parts,header,content,registered,algorithm,cut,unpacked,named,known,signed,unpacked',read,read',checked⟩
    obtain ⟨whole,_,clear⟩ := ofToken?_iff.mp cut
    cases List.mem_singleton.mp known
    refine ⟨parts.header,parts.claims,content,?_,clear,?_,unpacked',read,?_⟩
    · rw [whole,signed]
      rfl
    · rw [unpacked,Option.bind_some,named]
    · exact (service.admitted_iff read).mpr ⟨registered,read',checked⟩
  · rintro ⟨header,body,content,rfl,clear,named,unpacked',read,admitted⟩
    obtain ⟨bytes,unpacked,named⟩ := Option.bind_eq_some_iff.mp named
    obtain ⟨registered,read',checked⟩ := (service.admitted_iff read).mp admitted
    have cut : Parts.ofToken? ((header ++ '.' :: body) ++ '.' :: signature service.key (header ++ '.' :: body)) =
        some ⟨header,body,signature service.key (header ++ '.' :: body)⟩ :=
      ofToken?_iff.mpr ⟨rfl,base64Url_noDot _,clear⟩
    exact ⟨_,bytes,content,registered,"HS512",cut,unpacked,named,List.mem_singleton_self _,rfl,unpacked',read,read',checked⟩

theorem verify_signText {other : TokenService} (shared : other.key = service.key) (text : List Char) :
    other.verify (service.signText text) = .ok claims ↔
      Claims.ofBytes? (utf8 text) = some claims ∧ Admitted other.environment claims (utf8 text) := by
  have written : service.signText text = (encodeText header ++ '.' :: encodeText text) ++
      '.' :: signature other.key (encodeText header ++ '.' :: encodeText text) := by rw [shared]; rfl
  have clear : '.' ∉ encodeText text := base64Url_noDot _
  constructor
  · intro accepted
    obtain ⟨front,body,content,whole,clear',_,unpacked,read,admitted⟩ := (verify_iff other).mp accepted
    -- There is only one way to cut the text.
    have cut : Parts.ofToken? (service.signText text) = some ⟨encodeText header,encodeText text,
        signature other.key (encodeText header ++ '.' :: encodeText text)⟩ :=
      ofToken?_iff.mpr ⟨written,base64Url_noDot _,clear⟩
    have cut' : Parts.ofToken? (service.signText text) =
        some ⟨front,body,signature other.key (front ++ '.' :: body)⟩ :=
      ofToken?_iff.mpr ⟨whole,base64Url_noDot _,clear'⟩
    rw [cut] at cut'
    have same : encodeText text = body := congrArg Parts.claims (Option.some.inj cut')
    rw [← same,encodeText,ofBase64Url?_base64Url] at unpacked
    cases unpacked
    exact ⟨read,admitted⟩
  · rintro ⟨read,admitted⟩
    refine (verify_iff other).mpr ⟨encodeText header,encodeText text,utf8 text,written,clear,?_,?_,read,admitted⟩
    · rw [encodeText,ofBase64Url?_base64Url,Option.bind_some,algorithmOf?_header]
    · exact ofBase64Url?_base64Url _

end Verifying

theorem verify_sign {service other : TokenService} (shared : other.key = service.key) {claims found : Claims}
    (sound : claims.Sound) :
    other.verify (service.sign claims) = .ok found ↔ found = claims ∧ claims.audience = other.environment := by
  have read := Claims.ofBytes?_compact sound
  have registered := Claims.registered_compact claims
  rw [sign,verify_signText service shared,read]
  constructor
  · rintro ⟨⟨⟩,admitted⟩
    obtain ⟨_,read',checked⟩ := (other.admitted_iff read).mp admitted
    cases registered.symm.trans read'
    exact ⟨rfl,(List.mem_singleton.mp ((other.check_iff _).mp checked _ rfl)).symm⟩
  · rintro ⟨rfl,audience⟩
    refine ⟨rfl,(other.admitted_iff read).mpr ⟨_,registered,(other.check_iff _).mpr ?_⟩⟩
    rintro _ ⟨⟩
    exact List.mem_singleton.mpr audience.symm

section Issuing

theorem claimsFor_sound (service : TokenService) (user : Profile) (role : Option Role) {issuedAt : Int}
    (stamp : -(Int.pow 2 63) ≤ issuedAt ∧ issuedAt ≤ Int.pow 2 63 - 1) :
    (service.claimsFor user role issuedAt).Sound :=
  ⟨stamp,List.pairwise_singleton _ _⟩

theorem issueAt_filled (service : TokenService) {user : Profile} (identified : ∃ c ∈ user.id.toList, isBlank c = false)
    (role : Option Role) (issuedAt : Int) :
    service.issueAt user role issuedAt = .ok (service.sign (service.claimsFor user role issuedAt)) := by
  obtain ⟨c,member,solid⟩ := identified
  have filled : (trim user.id.toList).isEmpty = false :=
    List.isEmpty_eq_false_iff.mpr (List.ne_nil_of_mem (mem_trim member solid))
  rw [issueAt,filled]
  rfl

theorem issueAt_cases {service : TokenService} {user : Profile} {role : Option Role} {issuedAt : Int} {token : List Char}
    (issued : service.issueAt user role issuedAt = .ok token) :
    token = service.sign (service.claimsFor user role issuedAt) := by
  unfold issueAt at issued
  split at issued
  · cases issued
  · exact (Except.ok.inj issued).symm

end Issuing

end TokenService

-- Every user who has an identifier gets a token, and its own service reads from it what was claimed:
-- the trimmed environment, the time of issue, the profile as it is and the role that was asked for.
theorem issued_token_verifies {environment key : String} (defaultRole : Role)
    (named : ∃ c ∈ environment.toList, isBlank c = false) (keyed : key ≠ "") {user : Profile}
    (identified : ∃ c ∈ user.id.toList, isBlank c = false) (role : Option Role) {issuedAt : Int}
    (stamp : -(Int.pow 2 63) ≤ issuedAt ∧ issuedAt ≤ Int.pow 2 63 - 1) :
    ∃ service token, TokenService.make environment key defaultRole = .ok service ∧
      service.issueAt user role issuedAt = .ok token ∧
      service.verify token = .ok (service.claimsFor user role issuedAt) ∧
      service.claimsFor user role issuedAt =
        ⟨trimmed environment,issuedAt,user.id,[(allChannels,role.getD defaultRole)],user⟩ ∧
      (service.claimsFor user role issuedAt).role? = some (role.getD defaultRole) := by
  have made := TokenService.make_filled defaultRole named keyed
  refine ⟨_,_,made,TokenService.issueAt_filled _ identified role issuedAt,?_,rfl,rfl⟩
  exact (TokenService.verify_sign rfl (TokenService.claimsFor_sound _ user role stamp)).mpr ⟨rfl,rfl⟩

theorem issued_token_verifies_unusual :
    let user : Profile := ⟨" \"4\\2\"\n",some "Ada 😀",none,some ""⟩
    ∃ service token, TokenService.make "\u3000env 1\t" "k" .writer = .ok service ∧
      service.issueAt user (some .reader) (-9223372036854775808) = .ok token ∧
      service.verify token = .ok ⟨"env 1",-9223372036854775808,user.id,[("*",.reader)],user⟩ := by
  intro user
  obtain ⟨service,token,made,issued,accepted,claimed,_⟩ := @issued_token_verifies "\u3000env 1\t" "k" .writer
    ⟨'e',by decide,by decide⟩ (by decide) user ⟨'4',by decide,by decide⟩ (some .reader) (-9223372036854775808) (by decide)
  rw [claimed] at accepted
  exact ⟨_,token,made,issued,accepted⟩

-- A text passes exactly when it is a message and the encoded digest of that message under the key of the
-- service, with the one algorithm in the header of the message and with claims in it that are admitted to
-- the environment of the service. Services that share a key accept the tokens that they issue to one
-- another exactly when they are of one environment.
theorem only_signed_tokens_pass {environment key : String} {defaultRole : Role} {service : TokenService}
    (made : TokenService.make environment key defaultRole = .ok service) :
    (∀ token claims, service.verify token = .ok claims ↔
      ∃ header body content, token = (header ++ '.' :: body) ++
          '.' :: base64Url (Digest.hmac (utf8 key.toList) (utf8 (header ++ '.' :: body))) ∧
        '.' ∉ body ∧ (ofBase64Url? header).bind algorithmOf? = some "HS512" ∧ ofBase64Url? body = some content ∧
        Claims.ofBytes? content = some claims ∧ Admitted (trimmed environment) claims content) ∧
    ∀ (otherEnvironment : String) (otherRole : Role) (other : TokenService),
      TokenService.make otherEnvironment key otherRole = .ok other →
      ∀ (user : Profile) (role : Option Role) (issuedAt : Int) (token : List Char),
        -(Int.pow 2 63) ≤ issuedAt ∧ issuedAt ≤ Int.pow 2 63 - 1 → service.issueAt user role issuedAt = .ok token →
        ((∃ claims, other.verify token = .ok claims) ↔ trimmed environment = trimmed otherEnvironment) := by
  obtain ⟨named,_,keyed⟩ := TokenService.make_cases made
  constructor
  · intro token claims
    rw [service.verify_iff,named,keyed]
    rfl
  intro otherEnvironment otherRole other made' user role issuedAt token stamp issued
  obtain ⟨named',_,keyed'⟩ := TokenService.make_cases made'
  cases TokenService.issueAt_cases issued
  have sound := TokenService.claimsFor_sound service user role stamp
  have shared : other.key = service.key := keyed'.trans keyed.symm
  rw [← named,← named']
  constructor
  · rintro ⟨claims,accepted⟩
    exact ((TokenService.verify_sign shared sound).mp accepted).2
  · intro same
    exact ⟨_,(TokenService.verify_sign shared sound).mpr ⟨rfl,same⟩⟩

theorem only_signed_tokens_pass_within :
    let user : Profile := { id := "42" }
    ∃ issuer same other token, TokenService.make "env" "k" .writer = .ok issuer ∧
      TokenService.make " env " "k" .reader = .ok same ∧ TokenService.make "env2" "k" .writer = .ok other ∧
      issuer.issueAt user none 0 = .ok token ∧ (∃ claims, same.verify token = .ok claims) ∧
      ¬∃ claims, other.verify token = .ok claims := by
  intro user
  obtain ⟨issuer,made⟩ : ∃ service, TokenService.make "env" "k" .writer = .ok service :=
    ⟨_,TokenService.make_filled .writer ⟨'e',by decide,by decide⟩ (by decide)⟩
  obtain ⟨same,made'⟩ : ∃ service, TokenService.make " env " "k" .reader = .ok service :=
    ⟨_,TokenService.make_filled .reader ⟨'e',by decide,by decide⟩ (by decide)⟩
  obtain ⟨other,made''⟩ : ∃ service, TokenService.make "env2" "k" .writer = .ok service :=
    ⟨_,TokenService.make_filled .writer ⟨'e',by decide,by decide⟩ (by decide)⟩
  have identified : ∃ c ∈ user.id.toList, isBlank c = false := ⟨'4',by decide,by decide⟩
  have issued := issuer.issueAt_filled identified none 0
  have accepts := (only_signed_tokens_pass made).2
  refine ⟨issuer,same,other,_,made,made',made'',issued,?_,?_⟩
  · exact (accepts _ _ _ made' user none 0 _ (by decide) issued).mpr (by decide)
  · intro accepted
    have same := (accepts _ _ _ made'' user none 0 _ (by decide) issued).mp accepted
    revert same
    decide

-- Claims for another environment in an array, whose last item is a user and no list of texts.
theorem array_of_claims_passes_elsewhere :
    let text := "[\"other\",0,\"42\",\x7b\"collaboration\":\x7b\x7d\x7d,\x7b\"id\":\"42\"\x7d]".toList
    ∃ service claims, TokenService.make "env" "k" .writer = .ok service ∧
      service.verify (service.signText text) = .ok claims ∧ claims.audience = "other" ∧ service.environment = "env" := by
  intro text
  have made := @TokenService.make_filled "env" "k" .writer ⟨'e',by decide,by decide⟩ (by decide)
  have read : Claims.ofBytes? (utf8 text) = some ⟨"other",0,"42",[],{ id := "42" }⟩ := by
    rw [Claims.ofBytes?,Shape.readBytes,ofBytes_utf8]
    decide +kernel
  have registered : Registered.ofBytes? (utf8 text) = some ⟨.unread,.read 0,.read "42",.unread,.unread⟩ := by
    rw [Registered.ofBytes?,ofBytes_utf8]
    decide +kernel
  refine ⟨_,_,made,(TokenService.verify_signText _ rfl text).mpr ⟨read,?_⟩,rfl,by decide⟩
  exact (TokenService.admitted_iff _ read).mpr ⟨_,registered,(TokenService.check_iff _ _).mpr nofun⟩

end Redline.Access
