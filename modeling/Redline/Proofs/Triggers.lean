import Redline.Proofs.EmbedFields
import Redline.Proofs.Encodings
import Redline.Proofs.FailedEdits
import Redline.Proofs.Units

namespace Redline.Http

open Text

section Spelling

def pathSigns : List Char := ['-','.','_','~','!','$','&','\'','(',')','*','+',',',';','=',':','@']

-- Characters that may stand for themselves in a segment of a path.
def isPathChar (c : Char) : Bool := Markup.isLetter c || ('0' ≤ c && c ≤ '9') || pathSigns.contains c

-- A segment that stands for some bytes, each written as itself or as a percent sign and two digits.
inductive Spelled : List Char → List UInt8 → Prop where
  | nil : Spelled [] []
  | plain {c : Char} {text : List Char} {bytes : List UInt8} : isPathChar c = true → Spelled text bytes →
      Spelled (c :: text) (UInt8.ofNat c.toNat :: bytes)
  | escaped {a b : Char} {high low : Nat} {text : List Char} {bytes : List UInt8} :
      Json.hexValue? a = some high → Json.hexValue? b = some low → Spelled text bytes →
      Spelled ('%' :: a :: b :: text) (UInt8.ofNat (high * 16 + low) :: bytes)

theorem pathChar_ascii {c : Char} (plain : isPathChar c = true) : c.toNat < 128 := by
  simp only [isPathChar,Bool.or_eq_true,Bool.and_eq_true,decide_eq_true_eq] at plain
  rcases plain with (letter | ⟨_,digit⟩) | sign
  · exact Usage.letter_ascii letter
  · exact Usage.ascii_below digit (by decide)
  · have signs : (pathSigns.all fun d => d.toNat < 128) = true := by decide
    exact of_decide_eq_true (List.all_eq_true.mp signs c (List.contains_iff_mem.mp sign))

theorem pathChar_plain {c : Char} (plain : isPathChar c = true) : c ≠ '%' ∧ c ≠ '/' ∧ c ≠ '?' ∧ c ≠ '#' :=
  Usage.ascii_each (P := fun c => isPathChar c = true → c ≠ '%' ∧ c ≠ '/' ∧ c ≠ '?' ∧ c ≠ '#') (by decide +kernel)
    (pathChar_ascii plain) plain

theorem hexValue_ascii {c : Char} {n : Nat} (digit : Json.hexValue? c = some n) : c.toNat < 128 := by
  unfold Json.hexValue? at digit
  split at digit
  · rename_i decimal
    exact Usage.ascii_below decimal.2 (by decide)
  · split at digit
    · rename_i small
      exact Usage.ascii_below small.2 (by decide)
    · split at digit
      · rename_i large
        exact Usage.ascii_below large.2 (by decide)
      · cases digit

theorem hexValue_pathChar {c : Char} {n : Nat} (digit : Json.hexValue? c = some n) : isPathChar c = true :=
  Usage.ascii_each (P := fun c => (Json.hexValue? c).isSome = true → isPathChar c = true) (by decide +kernel)
    (hexValue_ascii digit) (by rw [digit]; rfl)

theorem utf8_ascii {c : Char} (ascii : c.toNat < 128) : utf8 [c] = [UInt8.ofNat c.toNat] := by
  have small : c.toNat ≤ 127 := Nat.le_of_lt_succ ascii
  rw [utf8_chars,List.flatMap_singleton]
  simp [String.utf8EncodeChar,small]

theorem percentBytes_plain {c : Char} (other : c ≠ '%') (rest : List Char) :
    percentBytes (c :: rest) = utf8 [c] ++ percentBytes rest := by
  rw [percentBytes]
  exact fun _ _ _ same _ => other same

theorem percentBytes_spelled {text : List Char} {bytes : List UInt8} (spelled : Spelled text bytes) :
    percentBytes text = bytes := by
  induction spelled with
  | nil => rfl
  | plain plain _ ih =>
      rw [percentBytes_plain (pathChar_plain plain).1,utf8_ascii (pathChar_ascii plain),ih]
      rfl
  | escaped high low _ ih => simp [percentBytes,high,low,ih]

theorem decoded_spelled {segment : List Char} {key : String} (spelled : Spelled segment (utf8 key.toList)) :
    decoded segment = .ok key := by
  rw [decoded,percentBytes_spelled spelled,ofUtf8?_utf8]
  exact congrArg Except.ok String.ofList_toList

theorem spelled_inside {text : List Char} {bytes : List UInt8} (spelled : Spelled text bytes) :
    ∀ c ∈ text, c ≠ '/' ∧ c ≠ '?' ∧ c ≠ '#' := by
  induction spelled with
  | nil => exact nofun
  | plain plain _ ih => exact List.forall_mem_cons.mpr ⟨(pathChar_plain plain).2,ih⟩
  | escaped high low _ ih =>
      have apart {c : Char} {n : Nat} (digit : Json.hexValue? c = some n) : c ≠ '/' ∧ c ≠ '?' ∧ c ≠ '#' :=
        (pathChar_plain (hexValue_pathChar digit)).2
      exact List.forall_mem_cons.mpr ⟨by decide,List.forall_mem_cons.mpr ⟨apart high,
        List.forall_mem_cons.mpr ⟨apart low,ih⟩⟩⟩

theorem spelled_self {text : List Char} (plain : text.all isPathChar = true) : Spelled text (utf8 text) := by
  rw [utf8_chars]
  induction text with
  | nil => exact .nil
  | cons c rest ih =>
      rw [List.all_cons,Bool.and_eq_true] at plain
      obtain ⟨here,later⟩ := plain
      have byte := utf8_ascii (pathChar_ascii here)
      rw [utf8_chars,List.flatMap_singleton] at byte
      rw [List.flatMap_cons,byte]
      exact .plain here (ih later)

def escapeBytes (bytes : List UInt8) : List Char :=
  bytes.flatMap fun b => ['%',Json.hexDigit (b.toNat / 16),Json.hexDigit (b.toNat % 16)]

theorem hexValue_hexDigit : ∀ n, n < 16 → Json.hexValue? (Json.hexDigit n) = some n := by decide

theorem escapeBytes_spelled (bytes : List UInt8) : Spelled (escapeBytes bytes) bytes := by
  induction bytes with
  | nil => exact .nil
  | cons b rest ih =>
      have small : b.toNat < 256 := b.toNat_lt
      have spelled := Spelled.escaped (hexValue_hexDigit (b.toNat / 16) (by omega))
        (hexValue_hexDigit (b.toNat % 16) (by omega)) ih
      rwa [Nat.div_add_mod',UInt8.ofNat_toNat] at spelled

end Spelling

section Requests

def statusSegment : List Char := "status".toList

-- A trigger is a request to start a run: the key in some spelling, and perhaps a query behind it.
structure Trigger (request : Request) (key : String) (segment : List Char) : Prop where
  posted : request.method = .post
  named : key ≠ ""
  spelled : Spelled segment (utf8 key.toList)
  placed : ∃ query : List Char, request.target.toList = "/cron/".toList ++ segment ++ query ∧
    (query = [] ∨ query.head? = some '?')

def Service.refusal? (s : Service) (key : String) (segment : List Char) : Option Refusal :=
  if segment = statusSegment then some .wrongMethod
  else match s.cronKey with
    | none => some .notFound
    | some expected => if key = expected then none else some .forbidden

def Service.ran (s : Service) (request : Request) : Reply × Service :=
  let status := match s.desk.run.1 with
    | .failed _ => 500
    | _ => 200
  (s.origins.answer request ⟨status,.json s.desk.run.1.toValue,[]⟩,{ s with desk := s.desk.run.2 })

variable {s : Service} {request : Request} {key : String} {segment : List Char}

theorem Trigger.pathOf_target (trigger : Trigger request key segment) : pathOf request.target = "/cron/".toList ++ segment := by
  obtain ⟨query,placed,start⟩ := trigger.placed
  have front : ("/cron/".toList.all fun c => c ≠ '?' ∧ c ≠ '#') = true := by decide
  have inside : ∀ c ∈ "/cron/".toList ++ segment, (decide (c ≠ '?' ∧ c ≠ '#')) = true := by
    intro c member
    rcases List.mem_append.mp member with member | member
    · exact List.all_eq_true.mp front c member
    · exact decide_eq_true (spelled_inside trigger.spelled c member).2
  have stops : query.takeWhile (fun c => c ≠ '?' ∧ c ≠ '#') = [] := by
    rcases start with rfl | mark
    · rfl
    · obtain ⟨rest,rfl⟩ := List.head?_eq_some_iff.mp mark
      rfl
  rw [pathOf,placed,List.takeWhile_append_of_pos inside,stops,List.append_nil]

theorem Trigger.segment_nonempty (trigger : Trigger request key segment) : segment ≠ [] := by
  rintro rfl
  have read := decoded_spelled trigger.spelled
  exact trigger.named (Except.ok.inj read).symm

theorem Trigger.resource_eq (trigger : Trigger request key segment) : resource? (pathOf request.target) =
    some (if segment = statusSegment then .cronStatus else .cron segment) := by
  have clear : '/' ∉ segment := fun member => (spelled_inside trigger.spelled '/' member).1 rfl
  have parts : splitOn '/' ("/cron/".toList ++ segment) = ["".toList,"cron".toList,segment] := by
    simp [splitOn,splitParts,Revision.splitParts_clear clear]
  rw [trigger.pathOf_target,resource?,parts]
  by_cases same : segment = statusSegment
  · subst same
    rfl
  · have other : String.ofList segment ≠ "status" := fun equal => same (by
      rw [statusSegment,← equal,String.toList_ofList])
    have filled : (String.ofList segment).isEmpty = false := by
      simpa [String.isEmpty_iff] using trigger.segment_nonempty
    simp only [String.ofList_toList,List.map_cons,List.map_nil,filled,if_neg same]
    split
    all_goals simp_all

theorem Trigger.handle_eq (trigger : Trigger request key segment) (s : Service) (clock : Clock) : s.handle request clock =
    match s.refusal? key segment with
    | some refusal => (s.origins.answer request refusal.reply,s)
    | none => s.ran request := by
  have plain : request.method ≠ .options := by simp [trigger.posted]
  rw [Service.handle,if_neg plain,dispatch_serve (by simp [trigger.posted]) trigger.resource_eq,trigger.posted,
    Service.refusal?]
  by_cases same : segment = statusSegment
  · rw [if_pos same,if_pos same]
    rfl
  · rw [if_neg same,if_neg same]
    simp only [Service.serve,Service.cron,decoded_spelled trigger.spelled]
    cases configured : s.cronKey with
    | none => rfl
    | some expected =>
        by_cases equal : key = expected
        · cases result : s.desk.run.1 <;> simp [equal,configured,result,Service.replyOf,Service.ran]
        · simp [equal,Service.replyOf]

theorem refusal_status {refusal : Refusal} (refused : s.refusal? key segment = some refusal) :
    refusal.reply.status = if segment = statusSegment then 405 else if s.cronKey = none then 404 else 403 := by
  unfold Service.refusal? at refused
  by_cases same : segment = statusSegment
  · rw [if_pos same] at refused ⊢
    cases refused
    rfl
  · rw [if_neg same] at refused ⊢
    cases configured : s.cronKey with
    | none =>
        rw [configured] at refused
        cases refused
        rfl
    | some expected =>
        rw [configured] at refused
        by_cases equal : key = expected
        · simp [equal] at refused
        · simp only [if_neg equal,Option.some.injEq] at refused
          cases refused
          rfl

theorem ran_status (plain : request.method ≠ .options) : (s.ran request).1.status = 200 ∨
    (s.ran request).1.status = 500 := by
  rw [Service.ran,answer_status _ plain]
  cases s.desk.run.1 with
  | failed headline => exact .inr rfl
  | completed tasks => exact .inl rfl
  | skipped => exact .inl rfl

theorem refusal?_none_iff : s.refusal? key segment = none ↔ s.cronKey = some key ∧ segment ≠ statusSegment := by
  unfold Service.refusal?
  by_cases same : segment = statusSegment
  · simp [same]
  · cases s.cronKey with
    | none => simp [same]
    | some expected => simp [same,eq_comm]

-- A trigger starts a run just where its key is the configured one and the segment is not the plain
-- `status`. Otherwise it is refused and leaves the service as it was. The segment is that word for no other
-- key, and every key has a spelling that is another word.
theorem cron_runs_iff (s : Service) (request : Request) (clock : Clock) (key : String) (segment : List Char)
    (trigger : Trigger request key segment) :
    (s.handle request clock = s.ran request ↔ s.cronKey = some key ∧ segment ≠ statusSegment) ∧
      (s.handle request clock ≠ s.ran request → (s.handle request clock).2 = s ∧
        (s.handle request clock).1.status =
          if segment = statusSegment then 405 else if s.cronKey = none then 404 else 403) ∧
      (segment = statusSegment → key = "status") ∧
      ∃ escaped, Spelled escaped (utf8 key.toList) ∧ escaped ≠ statusSegment := by
  have plain : request.method ≠ .options := by simp [trigger.posted]
  have served := trigger.handle_eq s clock
  have ran_iff : s.handle request clock = s.ran request ↔ s.refusal? key segment = none := by
    cases refused : s.refusal? key segment with
    | none =>
        rw [refused] at served
        exact ⟨fun _ => rfl,fun _ => served⟩
    | some refusal =>
        rw [refused] at served
        refine ⟨fun same => ?_,nofun⟩
        -- A refusal and a run differ in their status.
        have status := congrArg (fun answer => answer.1.status) (served.symm.trans same)
        simp only [answer_status _ plain] at status
        rw [refusal_status refused] at status
        have run := ran_status (s := s) plain
        split_ifs at status <;> omega
  refine ⟨ran_iff.trans refusal?_none_iff,?_,?_,?_⟩
  · intro idle
    rw [Ne,ran_iff] at idle
    obtain ⟨refusal,refused⟩ := Option.ne_none_iff_exists'.mp idle
    rw [refused] at served
    rw [served,answer_status _ plain]
    exact ⟨rfl,refusal_status refused⟩
  · rintro rfl
    have read := decoded_spelled trigger.spelled
    have word : decoded statusSegment = .ok "status" := decoded_spelled (spelled_self (by decide))
    exact Except.ok.inj (read.symm.trans word)
  · refine ⟨escapeBytes (utf8 key.toList),escapeBytes_spelled _,?_⟩
    cases utf8 key.toList with
    | nil => exact nofun
    | cons b rest => exact fun same => absurd (List.head_eq_of_cons_eq same) (by decide)

theorem cron_runs_iff_escaped :
    let s : Service := { (default : Service) with cronKey := some "a/b", origins := .any }
    let request : Request := ⟨.post,"/cron/a%2Fb?now",[],""⟩
    Trigger request "a/b" ['a','%','2','F','b'] ∧ s.handle request default = s.ran request ∧
      (s.ran request).1.status = 200 := by
  intro s request
  have bytes : utf8 "a/b".toList = [97,47,98] := by decide +kernel
  have last : Spelled ['b'] [98] := .plain rfl .nil
  have two : Json.hexValue? '2' = some 2 := rfl
  have fifteen : Json.hexValue? 'F' = some 15 := rfl
  have spelled : Spelled ['a','%','2','F','b'] [97,47,98] := .plain rfl (Spelled.escaped two fifteen last)
  have trigger : Trigger request "a/b" ['a','%','2','F','b'] :=
    ⟨rfl,by decide,bytes ▸ spelled,"?now".toList,by decide,.inr rfl⟩
  exact ⟨trigger,(cron_runs_iff s request default "a/b" _ trigger).1.mpr ⟨rfl,by decide⟩,by decide +kernel⟩

theorem status_key_runs_nothing :
    let s : Service := { (default : Service) with cronKey := some "status", origins := .any }
    let request : Request := ⟨.post,"/cron/status",[],""⟩
    Trigger request "status" statusSegment ∧ (s.handle request default).1.status = 405 ∧
      s.handle request default ≠ s.ran request := by
  intro s request
  have refused : (s.handle request default).1.status = 405 := by decide
  have run : (s.ran request).1.status = 200 := by decide +kernel
  refine ⟨⟨rfl,by decide,spelled_self (by decide),[],by decide,.inl rfl⟩,refused,fun same => ?_⟩
  rw [same,run] at refused
  cases refused

end Requests

end Redline.Http
