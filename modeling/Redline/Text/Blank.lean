namespace Redline.Text

def isBlank (c : Char) : Bool :=
  let n := c.toNat
  (9 ≤ n && n ≤ 13) || n == 0x20 || n == 0x85 || n == 0xA0 || n == 0x1680 ||
    (0x2000 ≤ n && n ≤ 0x200A) || n == 0x2028 || n == 0x2029 || n == 0x202F || n == 0x205F || n == 0x3000

def trimStart (text : List Char) : List Char := text.dropWhile isBlank

def trimEnd (text : List Char) : List Char := (text.reverse.dropWhile isBlank).reverse

def trim (text : List Char) : List Char := trimEnd (trimStart text)

def trimmed (text : String) : String := String.ofList (trim text.toList)

def allBlank (text : String) : Bool := text.toList.all isBlank

theorem trimEnd_append (text : List Char) :
    trimEnd text ++ (text.reverse.takeWhile isBlank).reverse = text := by
  rw [trimEnd,← List.reverse_append,List.takeWhile_append_dropWhile,List.reverse_reverse]

theorem mem_dropWhile {c : Char} {text : List Char} (member : c ∈ text) (solid : isBlank c = false) :
    c ∈ text.dropWhile isBlank := by
  rw [← List.takeWhile_append_dropWhile (p := isBlank) (l := text)] at member
  rcases List.mem_append.mp member with front | behind
  · have blank := List.all_eq_true.mp List.all_takeWhile c front
    rw [solid] at blank
    cases blank
  · exact behind

theorem mem_trim {c : Char} {text : List Char} (member : c ∈ text) (solid : isBlank c = false) : c ∈ trim text := by
  have front : c ∈ (trimStart text).reverse := List.mem_reverse.mpr (mem_dropWhile member solid)
  exact List.mem_reverse.mpr (mem_dropWhile front solid)

theorem trimEnd_padded {back : List Char} (text : List Char) (blank : back.all isBlank = true) :
    trimEnd (text ++ back) = trimEnd text := by
  rw [trimEnd,List.reverse_append,List.dropWhile_append_of_pos]
  · rfl
  · exact fun c member => List.all_eq_true.mp blank c (List.mem_reverse.mp member)

theorem trimEnd_solid {text : List Char} {d : Char} (last : text.getLast? = some d) (solid : isBlank d = false) :
    trimEnd text = text := by
  rw [← List.head?_reverse] at last
  obtain ⟨rest,eq⟩ := List.head?_eq_some_iff.mp last
  rw [trimEnd,eq,List.dropWhile_cons_of_neg (by simp [solid]),← eq,List.reverse_reverse]

theorem trimStart_solid {text : List Char} {c : Char} (first : text.head? = some c) (solid : isBlank c = false) :
    trimStart text = text := by
  obtain ⟨rest,rfl⟩ := List.head?_eq_some_iff.mp first
  exact List.dropWhile_cons_of_neg (by simp [solid])

theorem trimEnd_trimEnd (text : List Char) : trimEnd (trimEnd text) = trimEnd text := by
  have blank : ((text.reverse.takeWhile isBlank).reverse).all isBlank = true := by
    rw [List.all_reverse]
    exact List.all_takeWhile
  have padded := trimEnd_padded (trimEnd text) blank
  rw [trimEnd_append] at padded
  exact padded.symm

theorem trim_trim (text : List Char) : trim (trim text) = trim text := by
  have start : trimStart (trim text) = trim text := by
    cases here : trim text with
    | nil => rfl
    | cons c rest =>
        refine trimStart_solid rfl ?_
        have head := List.head?_dropWhile_not isBlank text
        have whole := trimEnd_append (trimStart text)
        rw [← trim,here,List.cons_append] at whole
        rw [← trimStart,← whole] at head
        simpa using head
  rw [trim,start,trim,trimEnd_trimEnd]

theorem trimmed_filled {text : String} (solid : ∃ c ∈ text.toList, isBlank c = false) : trimmed text ≠ "" := by
  obtain ⟨c,member,solid⟩ := solid
  intro empty
  have kept := mem_trim member solid
  rw [← String.toList_ofList (l := trim text.toList),← trimmed,empty] at kept
  cases kept

theorem trimmed_trimmed (text : String) : trimmed (trimmed text) = trimmed text := by
  rw [trimmed,trimmed,String.toList_ofList,trim_trim]

end Redline.Text
