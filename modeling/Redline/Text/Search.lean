namespace Redline.Text

def splitFirst (word : List Char) : List Char → Option (List Char × List Char)
  | [] => if word.isEmpty then some ([],[]) else none
  | c :: rest =>
      if word.isPrefixOf (c :: rest) then some ([],(c :: rest).drop word.length)
      else (splitFirst word rest).map fun (before,after) => (c :: before,after)

def lower (text : List Char) : List Char := text.map Char.toLower

def startsWithFold : List Char → List Char → Bool
  | [],_ => true
  | _ :: _,[] => false
  | w :: word,c :: text => w.toLower = c.toLower && startsWithFold word text

def endsWith (word text : List Char) : Bool := word.isSuffixOf text

def splitBeforeFold (word : List Char) : List Char → List Char × List Char
  | [] => ([],[])
  | c :: rest =>
      if startsWithFold word (c :: rest) then ([],c :: rest)
      else
        let (before,after) := splitBeforeFold word rest
        (c :: before,after)

def containsFold (word : List Char) : List Char → Bool
  | [] => startsWithFold word []
  | c :: rest => startsWithFold word (c :: rest) || containsFold word rest

def splitParts (separator : Char) : List Char → List Char × List (List Char)
  | [] => ([],[])
  | c :: rest =>
      let (piece,pieces) := splitParts separator rest
      if c = separator then ([],piece :: pieces) else (c :: piece,pieces)

def splitOn (separator : Char) (text : List Char) : List (List Char) :=
  let (piece,pieces) := splitParts separator text
  piece :: pieces

def joinWith (separator : List Char) : List (List Char) → List Char
  | [] => []
  | piece :: pieces => piece ++ pieces.flatMap (separator ++ ·)

def joined (separator : String) (pieces : List String) : String :=
  String.ofList (joinWith separator.toList (pieces.map String.toList))

def substitute (target : Char) (word text : List Char) : List Char :=
  text.flatMap fun c => if c = target then word else [c]

theorem startsWithFold_iff (word text : List Char) :
    startsWithFold word text = true ↔ lower word <+: lower text := by
  induction word generalizing text with
  | nil => simp [startsWithFold,lower]
  | cons w word ih =>
      cases text with
      | nil => simp [startsWithFold,lower]
      | cons c text =>
          simp only [lower] at ih
          simp [startsWithFold,lower,ih]

theorem prefix_stop {word text rest : List Char} {stop : Char} (absent : stop ∉ word) :
    word <+: text ++ stop :: rest ↔ word <+: text := by
  induction word generalizing text with
  | nil => simp
  | cons w word ih =>
      rw [List.mem_cons,not_or] at absent
      cases text with
      | nil => simp [List.cons_prefix_cons,Ne.symm absent.1]
      | cons c text => rw [List.cons_append,List.cons_prefix_cons,List.cons_prefix_cons,ih absent.2]

theorem splitBeforeFold_append (word text : List Char) :
    (splitBeforeFold word text).1 ++ (splitBeforeFold word text).2 = text := by
  induction text with
  | nil => rfl
  | cons c rest ih =>
      simp only [splitBeforeFold]
      split
      · rfl
      · simp [ih]

theorem joinWith_splitOn (separator : Char) (text : List Char) :
    joinWith [separator] (splitOn separator text) = text := by
  induction text with
  | nil => rfl
  | cons c rest ih =>
      simp only [splitOn,splitParts,joinWith] at ih ⊢
      split
      · rename_i here
        simpa [here] using ih
      · simpa using ih

end Redline.Text
