import Redline.Text.Base64Url
import Redline.Text.Utf8

namespace Redline.Text

section Bytes

theorem toList_loop (bytes : ByteArray) (i : Nat) (done : List UInt8) :
    ByteArray.toList.loop bytes i done = done.reverse ++ bytes.data.toList.drop i := by
  fun_induction ByteArray.toList.loop bytes i done with
  | case1 i done inside ih =>
      have here : i < bytes.data.toList.length := by simpa using inside
      rw [ih,List.drop_eq_getElem_cons here,List.reverse_cons,List.append_assoc]
      have read : bytes.get! i = bytes.data[i]! := rfl
      rw [read,getElem!_pos bytes.data i inside]
      rfl
  | case2 i done outside =>
      have beyond : bytes.data.toList.length ≤ i := by simpa using outside
      rw [List.drop_eq_nil_of_le beyond,List.append_nil]

theorem utf8_chars (text : List Char) : utf8 text = text.flatMap String.utf8EncodeChar := by
  have loop := toList_loop (text.flatMap String.utf8EncodeChar).toByteArray 0 []
  rw [utf8,String.toUTF8_eq_toByteArray,String.toByteArray_ofList,List.utf8Encode,ByteArray.toList,loop,
    List.toList_data_toByteArray]
  rfl

end Bytes

section Characters

variable (fuel : Nat) (rest : List UInt8)

theorem toNat_small {n : Nat} (small : n < 256) : (UInt8.ofNat n).toNat = n := UInt8.toNat_ofNat_of_lt' small

theorem continued_byte {missing low high value n : Nat} (within : low ≤ n ∧ n ≤ high) (small : n < 256) :
    continued (missing + 1) low high value (UInt8.ofNat n :: rest) =
      continued missing 0x80 0xBF (value * 64 + (n - 0x80)) rest := by
  rw [continued,toNat_small small,if_pos within]

theorem continued_done (low high value : Nat) : continued 0 low high value rest = (some (Char.ofNat value),rest) := by
  rw [continued]

theorem scanUtf8_lead {b missing low high value : Nat} (small : b < 256) (lead : 0x80 ≤ b)
    (announced : announced? b = some (missing,low,high,value)) (tail : List UInt8) :
    scanUtf8 (fuel + 1) (UInt8.ofNat b :: tail) =
      (continued missing low high value tail).1 :: scanUtf8 fuel (continued missing low high value tail).2 := by
  rw [scanUtf8,toNat_small small,if_neg (Nat.not_lt.mpr lead),announced]

theorem scanUtf8_two {n : Nat} (low : 0x80 ≤ n) (high : n ≤ 0x7FF) :
    scanUtf8 (fuel + 1) (UInt8.ofNat (n / 64 % 0x20 + 0xC0) :: UInt8.ofNat (n % 0x40 + 0x80) :: rest) =
      some (Char.ofNat n) :: scanUtf8 fuel rest := by
  have lead : announced? (n / 64 % 0x20 + 0xC0) = some (1,0x80,0xBF,n / 64 % 0x20 + 0xC0 - 0xC0) := by
    rw [announced?,if_pos (by omega)]
  have value : (n / 64 % 0x20 + 0xC0 - 0xC0) * 64 + (n % 0x40 + 0x80 - 0x80) = n := by omega
  rw [scanUtf8_lead fuel (by omega) (by omega) lead,continued_byte rest (by omega) (by omega),continued_done,value]

theorem announced?_three {n : Nat} (low : 0x800 ≤ n) (high : n ≤ 0xFFFF) (scalar : n < 0xD800 ∨ 0xDFFF < n) :
    ∃ least most, announced? (n / 4096 % 0x10 + 0xE0) = some (2,least,most,n / 4096) ∧
      least ≤ n / 64 % 0x40 + 0x80 ∧ n / 64 % 0x40 + 0x80 ≤ most := by
  unfold announced?
  rw [if_neg (by omega)]
  by_cases first : n / 4096 % 0x10 + 0xE0 = 0xE0
  · have bits : n / 4096 = 0 := by omega
    rw [if_pos first,bits]
    exact ⟨0xA0,0xBF,rfl,by omega,by omega⟩
  by_cases last : n / 4096 % 0x10 + 0xE0 = 0xED
  · have bits : n / 4096 = 0xD := by omega
    rw [if_neg first,if_pos last,bits]
    exact ⟨0x80,0x9F,rfl,by omega,by omega⟩
  · have bits : n / 4096 % 0x10 + 0xE0 - 0xE0 = n / 4096 := by omega
    rw [if_neg first,if_neg last,if_pos (by omega),bits]
    exact ⟨0x80,0xBF,rfl,by omega,by omega⟩

theorem scanUtf8_three {n : Nat} (low : 0x800 ≤ n) (high : n ≤ 0xFFFF) (scalar : n < 0xD800 ∨ 0xDFFF < n) :
    scanUtf8 (fuel + 1) (UInt8.ofNat (n / 4096 % 0x10 + 0xE0) :: UInt8.ofNat (n / 64 % 0x40 + 0x80) ::
      UInt8.ofNat (n % 0x40 + 0x80) :: rest) = some (Char.ofNat n) :: scanUtf8 fuel rest := by
  obtain ⟨least,most,lead,within⟩ := announced?_three low high scalar
  have value : (n / 4096 * 64 + (n / 64 % 0x40 + 0x80 - 0x80)) * 64 + (n % 0x40 + 0x80 - 0x80) = n := by omega
  rw [scanUtf8_lead fuel (by omega) (by omega) lead,continued_byte _ within (by omega),
    continued_byte rest (by omega) (by omega),continued_done,value]

theorem announced?_four {n : Nat} (low : 0x10000 ≤ n) (high : n ≤ 0x10FFFF) :
    ∃ least most, announced? (n / 262144 % 0x08 + 0xF0) = some (3,least,most,n / 262144) ∧
      least ≤ n / 4096 % 0x40 + 0x80 ∧ n / 4096 % 0x40 + 0x80 ≤ most := by
  unfold announced?
  rw [if_neg (by omega),if_neg (by omega),if_neg (by omega),if_neg (by omega)]
  by_cases first : n / 262144 % 0x08 + 0xF0 = 0xF0
  · have bits : n / 262144 = 0 := by omega
    rw [if_pos first,bits]
    exact ⟨0x90,0xBF,rfl,by omega,by omega⟩
  by_cases last : n / 262144 % 0x08 + 0xF0 = 0xF4
  · have bits : n / 262144 = 4 := by omega
    rw [if_neg first,if_neg (by omega),if_pos last,bits]
    exact ⟨0x80,0x8F,rfl,by omega,by omega⟩
  · have bits : n / 262144 % 0x08 + 0xF0 - 0xF0 = n / 262144 := by omega
    rw [if_neg first,if_pos (by omega),bits]
    exact ⟨0x80,0xBF,rfl,by omega,by omega⟩

theorem scanUtf8_four {n : Nat} (low : 0x10000 ≤ n) (high : n ≤ 0x10FFFF) :
    scanUtf8 (fuel + 1) (UInt8.ofNat (n / 262144 % 0x08 + 0xF0) :: UInt8.ofNat (n / 4096 % 0x40 + 0x80) ::
      UInt8.ofNat (n / 64 % 0x40 + 0x80) :: UInt8.ofNat (n % 0x40 + 0x80) :: rest) =
      some (Char.ofNat n) :: scanUtf8 fuel rest := by
  obtain ⟨least,most,lead,within⟩ := announced?_four low high
  have value : ((n / 262144 * 64 + (n / 4096 % 0x40 + 0x80 - 0x80)) * 64 + (n / 64 % 0x40 + 0x80 - 0x80)) * 64 +
      (n % 0x40 + 0x80 - 0x80) = n := by omega
  rw [scanUtf8_lead fuel (by omega) (by omega) lead,continued_byte _ within (by omega),
    continued_byte _ (by omega) (by omega),continued_byte rest (by omega) (by omega),continued_done,value]

theorem char_scalar (c : Char) : (c.toNat < 0xD800 ∨ 0xDFFF < c.toNat) ∧ c.toNat ≤ 0x10FFFF := by
  rcases c.valid with low | high
  · have small : c.toNat < 0xD800 := low
    exact ⟨.inl small,by omega⟩
  · obtain ⟨above,below⟩ : 0xDFFF < c.toNat ∧ c.toNat < 0x110000 := high
    exact ⟨.inr above,by omega⟩

theorem scanUtf8_char (c : Char) :
    scanUtf8 (fuel + 1) (String.utf8EncodeChar c ++ rest) = some c :: scanUtf8 fuel rest := by
  obtain ⟨scalar,most⟩ := char_scalar c
  have own : Char.ofNat c.toNat = c := Char.ofNat_toNat c
  unfold String.utf8EncodeChar
  change scanUtf8 (fuel + 1) ((if c.toNat ≤ 0x7F then _ else if c.toNat ≤ 0x7FF then _ else
    if c.toNat ≤ 0xFFFF then _ else _) ++ rest) = _
  split
  · rename_i one
    change scanUtf8 (fuel + 1) (UInt8.ofNat c.toNat :: rest) = _
    rw [scanUtf8,toNat_small (by omega),if_pos (by omega),own]
  split
  · rename_i one two
    exact (scanUtf8_two fuel rest (by omega) two).trans (by rw [own])
  split
  · rename_i one two three
    exact (scanUtf8_three fuel rest (by omega) three scalar).trans (by rw [own])
  · exact (scanUtf8_four fuel rest (by omega) most).trans (by rw [own])

end Characters

theorem scanUtf8_utf8 (text : List Char) (fuel : Nat) (enough : text.length ≤ fuel) :
    scanUtf8 fuel (text.flatMap String.utf8EncodeChar) = text.map some := by
  induction text generalizing fuel with
  | nil => cases fuel <;> rfl
  | cons c rest ih =>
      obtain ⟨below,rfl⟩ : ∃ below, fuel = below + 1 := ⟨fuel - 1,by rw [List.length_cons] at enough; omega⟩
      rw [List.flatMap_cons,scanUtf8_char,ih below (Nat.le_of_succ_le_succ enough)]
      rfl

theorem scanUtf8_bytes (text : List Char) : scanUtf8 (utf8 text).length (utf8 text) = text.map some := by
  have enough : text.length ≤ (text.flatMap String.utf8EncodeChar).length := by
    induction text with
    | nil => exact Nat.le_refl 0
    | cons c rest ih =>
        have filled : 0 < (String.utf8EncodeChar c).length := List.length_pos_iff.mpr String.utf8EncodeChar_ne_nil
        rw [List.flatMap_cons,List.length_append,List.length_cons]
        omega
  rw [utf8_chars,scanUtf8_utf8 text _ enough]

theorem ofUtf8?_utf8 (text : List Char) : ofUtf8? (utf8 text) = some text := by
  rw [ofUtf8?,scanUtf8_bytes,List.mapM_map]
  have each : (text.mapM fun c => pure c : Option (List Char)) = pure (text.map id) := List.mapM_pure
  rwa [List.map_id] at each

section Sextets

theorem sextet?_sextetChar : ∀ n, n < 64 → sextet? (sextetChar n) = some n := by decide

theorem sextetChar_noDot : ∀ n, n < 64 → sextetChar n ≠ '.' := by decide

theorem byte_of_parts {b : UInt8} {n : Nat} (same : n = b.toNat) : UInt8.ofNat n = b := by
  rw [same,UInt8.ofNat_toNat]

theorem ofBase64Url?_base64Url (bytes : List UInt8) : ofBase64Url? (base64Url bytes) = some bytes := by
  induction bytes using base64Url.induct with
  | case1 => rfl
  | case2 a =>
      have small := a.toNat_lt
      have first : a.toNat / 4 * 4 + a.toNat % 4 * 16 / 16 = a.toNat := by omega
      rw [base64Url,ofBase64Url?]
      simp only [sextet?_sextetChar (a.toNat / 4) (by omega),sextet?_sextetChar (a.toNat % 4 * 16) (by omega),
        Option.bind_eq_bind,Option.bind_some,Nat.mul_mod_left,if_true,byte_of_parts first]
  | case3 a b =>
      have small := a.toNat_lt
      have low := b.toNat_lt
      have first : a.toNat / 4 * 4 + (a.toNat % 4 * 16 + b.toNat / 16) / 16 = a.toNat := by omega
      have second : (a.toNat % 4 * 16 + b.toNat / 16) % 16 * 16 + b.toNat % 16 * 4 / 4 = b.toNat := by omega
      rw [base64Url,ofBase64Url?]
      simp only [sextet?_sextetChar (a.toNat / 4) (by omega),
        sextet?_sextetChar (a.toNat % 4 * 16 + b.toNat / 16) (by omega),
        sextet?_sextetChar (b.toNat % 16 * 4) (by omega),Option.bind_eq_bind,Option.bind_some,Nat.mul_mod_left,if_true,
        byte_of_parts first,byte_of_parts second]
  | case4 a b c rest ih =>
      have small := a.toNat_lt
      have low := b.toNat_lt
      have least := c.toNat_lt
      have first : a.toNat / 4 * 4 + (a.toNat % 4 * 16 + b.toNat / 16) / 16 = a.toNat := by omega
      have second : (a.toNat % 4 * 16 + b.toNat / 16) % 16 * 16 + (b.toNat % 16 * 4 + c.toNat / 64) / 4 = b.toNat := by
        omega
      have third : (b.toNat % 16 * 4 + c.toNat / 64) % 4 * 64 + c.toNat % 64 = c.toNat := by omega
      rw [base64Url,ofBase64Url?]
      simp only [sextet?_sextetChar (a.toNat / 4) (by omega),
        sextet?_sextetChar (a.toNat % 4 * 16 + b.toNat / 16) (by omega),
        sextet?_sextetChar (b.toNat % 16 * 4 + c.toNat / 64) (by omega),sextet?_sextetChar (c.toNat % 64) (by omega),ih,
        Option.bind_eq_bind,Option.bind_some,byte_of_parts first,byte_of_parts second,byte_of_parts third]
      rfl

theorem base64Url_noDot (bytes : List UInt8) : '.' ∉ base64Url bytes := by
  have apart {n : Nat} (small : n < 64) : '.' ≠ sextetChar n := (sextetChar_noDot n small).symm
  induction bytes using base64Url.induct with
  | case1 => exact List.not_mem_nil
  | case2 a =>
      have small := a.toNat_lt
      simp only [base64Url,List.mem_cons,List.not_mem_nil,or_false,not_or]
      exact ⟨apart (by omega),apart (by omega)⟩
  | case3 a b =>
      have small := a.toNat_lt
      have low := b.toNat_lt
      simp only [base64Url,List.mem_cons,List.not_mem_nil,or_false,not_or]
      exact ⟨apart (by omega),apart (by omega),apart (by omega)⟩
  | case4 a b c rest ih =>
      have small := a.toNat_lt
      have low := b.toNat_lt
      have least := c.toNat_lt
      simp only [base64Url,List.mem_cons,not_or]
      exact ⟨apart (by omega),apart (by omega),apart (by omega),apart (by omega),ih⟩

end Sextets

end Redline.Text
