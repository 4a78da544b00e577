import Redline.Html.Tree

namespace Redline.Html

-- An open element with what it holds so far, last node first. A fostered one goes before the table.
structure Frame where
  id : Nat
  name : String
  attributes : List Attribute
  children : List Node
  fostered : Bool
deriving Inhabited

-- Formatting that goes on until its end tag; a marker keeps it inside a cell or a caption.
inductive Formatting where
  | marker
  | element (id : Nat) (name : String) (attributes : List Attribute)
deriving Inhabited

-- Frames and formatting have the latest first. The last frame is the fragment itself.
structure Builder where
  frames : List Frame
  formatting : List Formatting := []
  next : Nat := 1
  inForm : Bool := false
  dropLineEnd : Bool := false
deriving Inhabited

def Builder.start : Builder := { frames := [⟨0,"html",[],[],false⟩] }

def tableParts : List String := ["table","tbody","tfoot","thead","tr"]

def specialNames : List String :=
  ["address","applet","area","article","aside","base","basefont","bgsound","blockquote","body","br",
    "button","caption","center","col","colgroup","dd","details","dir","div","dl","dt","embed",
    "fieldset","figcaption","figure","footer","form","frame","frameset","h1","h2","h3","h4","h5",
    "h6","head","header","hgroup","hr","html","iframe","img","input","isindex","li","link",
    "listing","main","marquee","menu","meta","nav","noembed","noframes","noscript","object","ol",
    "p","param","plaintext","pre","script","section","select","source","style","summary","table",
    "tbody","td","template","textarea","tfoot","th","thead","title","tr","track","ul","wbr","xmp"]

def formattingNames : List String :=
  ["a","b","big","code","em","font","i","nobr","s","small","strike","strong","tt","u"]

def headingNames : List String := ["h1","h2","h3","h4","h5","h6"]

def impliedNames : List String := ["dd","dt","li","optgroup","option","p","rb","rp","rt","rtc"]

def blockNames : List String :=
  ["address","article","aside","blockquote","center","details","dialog","dir","div","dl","fieldset",
    "figcaption","figure","footer","header","hgroup","main","menu","nav","ol","search","section",
    "summary","ul"]

def scopeEnds : List String := ["applet","caption","html","table","td","th","marquee","object","template"]

def tableScopeEnds : List String := ["html","table","template"]

def inScope (ends names : List String) : List Frame → Bool
  | [] => false
  | frame :: rest =>
      if names.contains frame.name then true
      else if ends.contains frame.name then false
      else inScope ends names rest

def addChild (node : Node) : List Frame → List Frame
  | [] => []
  | frame :: rest => { frame with children := node :: frame.children } :: rest

def addFostered (node : Node) : List Frame → List Frame
  | [] => []
  | frame :: rest => if frame.name = "table" then frame :: addChild node rest else frame :: addFostered node rest

def Frame.node (frame : Frame) : Node := .element frame.name frame.attributes frame.children.reverse

def closeFrames : Nat → List Frame → List Frame
  | 0,frames => frames
  | more + 1,frame :: below :: rest =>
      closeFrames more
        (if frame.fostered then addFostered frame.node (below :: rest) else addChild frame.node (below :: rest))
  | _,frames => frames

def closeWhile (here : Frame → Bool) (frames : List Frame) : List Frame :=
  closeFrames (frames.takeWhile here).length frames

def closeTo (names : List String) (frames : List Frame) : List Frame :=
  closeFrames ((frames.takeWhile fun frame => !names.contains frame.name).length + 1) frames

def closeImplied (except : String) (frames : List Frame) : List Frame :=
  closeWhile (fun frame => impliedNames.contains frame.name && frame.name ≠ except) frames

def standsInTable (frames : List Frame) : Bool := frames.head?.any fun frame => tableParts.contains frame.name

namespace Builder

def top (b : Builder) : String := (b.frames.head?.map Frame.name).getD ""

def onFrames (b : Builder) (change : List Frame → List Frame) : Builder := { b with frames := change b.frames }

def has (b : Builder) (ends names : List String) : Bool := inScope ends names b.frames

def push (b : Builder) (name : String) (attributes : List Attribute) (fostered : Bool) : Builder :=
  { b with frames := ⟨b.next,name,attributes,[],fostered⟩ :: b.frames, next := b.next + 1 }

def insert (b : Builder) (name : String) (attributes : List Attribute) : Builder :=
  b.push name attributes (standsInTable b.frames)

def insertNode (b : Builder) (node : Node) : Builder :=
  b.onFrames fun frames => if standsInTable frames then addFostered node frames else addChild node frames

def insertVoid (b : Builder) (name : String) (attributes : List Attribute) : Builder :=
  b.insertNode (.element name attributes [])

def closeParagraph (b : Builder) : Builder :=
  if b.has ("button" :: scopeEnds) ["p"] then b.onFrames fun frames => closeTo ["p"] (closeImplied "p" frames)
  else b

def addMarker (b : Builder) : Builder := { b with formatting := .marker :: b.formatting }

def isElement : Formatting → Bool
  | .marker => false
  | .element _ _ _ => true

def clearToMarker (b : Builder) : Builder := { b with formatting := (b.formatting.dropWhile isElement).drop 1 }

def isOpen (b : Builder) (id : Nat) : Bool := b.frames.any (·.id = id)

def waits (b : Builder) : Formatting → Bool
  | .marker => false
  | .element id _ _ => !b.isOpen id

def reopen (b : Builder) : List Formatting → Builder × List Formatting
  | [] => (b,[])
  | .marker :: rest =>
      let (b,opened) := reopen b rest
      (b,.marker :: opened)
  | .element _ name attributes :: rest =>
      let (b,opened) := reopen b rest
      (b.insert name attributes,.element b.next name attributes :: opened)

def reconstruct (b : Builder) : Builder :=
  let waiting := b.formatting.takeWhile b.waits
  let (opened,entries) := reopen b waiting
  { opened with formatting := entries ++ b.formatting.drop waiting.length }

def isSame (name : String) (attributes : List Attribute) : Formatting → Bool
  | .marker => false
  | .element _ other others => other = name && others.length = attributes.length && attributes.all others.contains

-- At most three equal entries stand behind a marker; the earliest gives way.
def dropEarliest (same : Formatting → Bool) (entries : List Formatting) : List Formatting :=
  if (entries.countP same) < 3 then entries else (entries.reverse.eraseP same).reverse

def insertFormatting (b : Builder) (name : String) (attributes : List Attribute) : Builder :=
  let recent := b.formatting.takeWhile isElement
  let older := b.formatting.dropWhile isElement
  let entries := .element b.next name attributes :: dropEarliest (isSame name attributes) recent ++ older
  { b.insert name attributes with formatting := entries }

def dropFormatting (b : Builder) (id : Nat) : Builder :=
  { b with formatting := b.formatting.filter fun entry =>
      match entry with
      | .element other _ _ => other ≠ id
      | .marker => true }

def isFormatting (b : Builder) (id : Nat) : Bool :=
  b.formatting.any fun entry =>
    match entry with
    | .element other _ _ => other = id
    | .marker => false

-- An end tag for no element in particular: closes the nearest element of the name, unless a special
-- one is in between.
def closeAny (b : Builder) (name : String) : Builder :=
  let above := b.frames.takeWhile fun frame => frame.name ≠ name && !specialNames.contains frame.name
  match b.frames.drop above.length with
  | frame :: _ => if frame.name = name then b.onFrames (closeFrames (above.length + 1)) else b
  | [] => b

def formattingOf? (name : String) : List Formatting → Option Nat
  | .element id other _ :: rest => if other = name then some id else formattingOf? name rest
  | _ => none

-- The elements between a block and the formatting around it are opened again around the block; at
-- most three of them go on as formatting.
def copies (b : Builder) : Nat → List Frame → Builder × List Frame × List (Nat × Nat)
  | _,[] => (b,[],[])
  | count,frame :: rest =>
      if !b.isFormatting frame.id then copies b (count + 1) rest
      else if count ≥ 3 then copies (b.dropFormatting frame.id) (count + 1) rest
      else
        let id := b.next
        let formatting := b.formatting.map fun entry =>
          match entry with
          | .element other name attributes =>
              if other = frame.id then .element id name attributes else .element other name attributes
          | .marker => .marker
        let (b,frames,ids) := copies { b with next := id + 1, formatting } (count + 1) rest
        (b,⟨id,frame.name,frame.attributes,[],false⟩ :: frames,(frame.id,id) :: ids)

def replaceFormatting (old : Nat) (fresh : Formatting) (copy : Option Nat) (entries : List Formatting) :
    List Formatting :=
  entries.flatMap fun entry =>
    match entry with
    | .element id name attributes =>
        if some id = copy then [fresh,.element id name attributes]
        else if id = old then (if copy.isNone then [fresh] else [])
        else [.element id name attributes]
    | .marker => [.marker]

def markLowest (fostered : Bool) : List Frame → List Frame
  | [] => []
  | [frame] => [{ frame with fostered }]
  | frame :: rest => frame :: markLowest fostered rest

-- Ends formatting that has a block inside it: the part before the block is closed, and inside the
-- block the formatting goes on until here. `above` stands above the block, `between` under it.
def splitFormatting (b : Builder) (above : List Frame) (block : Frame) (between : List Frame) (old : Frame)
    (below : List Frame) : Builder :=
  let base := closeFrames (between.length + 1) (between ++ old :: below)
  let (b,copied,ids) := copies b 0 between
  let fresh : Frame := ⟨b.next,old.name,old.attributes,block.children,false⟩
  let lower := markLowest (standsInTable base) ({ block with children := [], fostered := false } :: copied)
  { b with
    next := b.next + 1
    frames := above ++ fresh :: lower ++ base
    formatting := replaceFormatting old.id (.element b.next old.name old.attributes) (ids.head?.map Prod.snd) b.formatting }

-- The end tag of formatting. Each round moves the formatting further in.
def adopt (b : Builder) (name : String) : Nat → Builder
  | 0 => b
  | rounds + 1 =>
      match formattingOf? name b.formatting with
      | none => b.closeAny name
      | some id =>
          if !b.isOpen id then b.dropFormatting id
          else
            let above := b.frames.takeWhile (·.id ≠ id)
            let rest := b.frames.drop above.length
            if (above.any fun frame => scopeEnds.contains frame.name) then b
            else
              let between := (above.reverse.takeWhile fun frame => !specialNames.contains frame.name).reverse
              match (above.take (above.length - between.length)).getLast?,rest with
              | some block,old :: below =>
                  adopt (b.splitFormatting (above.take (above.length - between.length - 1)) block between old below)
                    name rounds
              | _,_ => (b.onFrames (closeFrames (above.length + 1))).dropFormatting id

def closeOpen (b : Builder) (id : Nat) : Builder :=
  if b.isOpen id then b.onFrames (closeFrames ((b.frames.takeWhile (·.id ≠ id)).length + 1)) else b

def endFormatting (b : Builder) (name : String) : Builder :=
  match b.frames with
  | frame :: _ =>
      if frame.name = name && !b.isFormatting frame.id then b.onFrames (closeFrames 1) else b.adopt name 8
  | [] => b

def closeItem (b : Builder) (names : List String) : Builder :=
  let passes := fun (frame : Frame) => !names.contains frame.name &&
    (!specialNames.contains frame.name || ["address","div","p"].contains frame.name)
  match b.frames.dropWhile passes with
  | frame :: _ =>
      if names.contains frame.name then b.onFrames fun frames => closeTo [frame.name] (closeImplied frame.name frames)
      else b
  | [] => b

def openBlock (b : Builder) (name : String) (attributes : List Attribute) : Builder :=
  b.closeParagraph.insert name attributes

def openContent (b : Builder) (name : String) (attributes : List Attribute) : Builder :=
  if ["html","body","frameset","head","frame","caption","col","colgroup","tbody","td","tfoot","th",
      "thead","tr"].contains name then b
  else if blockNames.contains name || name = "p" then b.openBlock name attributes
  else if headingNames.contains name then
    let b := b.closeParagraph
    let b := if headingNames.contains b.top then b.onFrames (closeFrames 1) else b
    b.insert name attributes
  else if name = "pre" || name = "listing" then { b.openBlock name attributes with dropLineEnd := true }
  else if name = "form" then
    if b.inForm then b else { b.openBlock name attributes with inForm := true }
  else if name = "li" then (b.closeItem ["li"]).openBlock name attributes
  else if name = "dd" || name = "dt" then (b.closeItem ["dd","dt"]).openBlock name attributes
  else if name = "plaintext" then b.openBlock name attributes
  else if name = "button" then
    let b := if b.has scopeEnds ["button"] then b.onFrames fun frames => closeTo ["button"] (closeImplied "" frames)
      else b
    b.reconstruct.insert name attributes
  else if name = "a" then
    let b := match formattingOf? "a" b.formatting with
      | some id => ((b.adopt "a" 8).dropFormatting id).closeOpen id
      | none => b
    b.reconstruct.insertFormatting name attributes
  else if name = "nobr" then
    let b := b.reconstruct
    let b := if b.has scopeEnds ["nobr"] then (b.adopt "nobr" 8).reconstruct else b
    b.insertFormatting name attributes
  else if formattingNames.contains name then b.reconstruct.insertFormatting name attributes
  else if ["applet","marquee","object"].contains name then (b.reconstruct.insert name attributes).addMarker
  else if name = "table" then b.openBlock name attributes
  else if name = "hr" then b.closeParagraph.insertVoid name attributes
  else if name = "image" then b.reconstruct.insertVoid "img" attributes
  else if ["param","source","track","base","basefont","bgsound","link","meta"].contains name then
    b.insertVoid name attributes
  else if voidNames.contains name then b.reconstruct.insertVoid name attributes
  else if name = "textarea" then { b.insert name attributes with dropLineEnd := true }
  else if name = "xmp" then b.closeParagraph.reconstruct.insert name attributes
  else if ["iframe","noembed","noscript","noframes","script","style","title","template"].contains name then
    b.insert name attributes
  else if name = "optgroup" || name = "option" then
    let b := if b.top = "option" then b.onFrames (closeFrames 1) else b
    b.reconstruct.insert name attributes
  else if name = "rb" || name = "rtc" then
    let b := if b.has scopeEnds ["ruby"] then b.onFrames (closeImplied "") else b
    b.insert name attributes
  else if name = "rp" || name = "rt" then
    let b := if b.has scopeEnds ["ruby"] then b.onFrames (closeImplied "rtc") else b
    b.insert name attributes
  else b.reconstruct.insert name attributes

def closeScoped (b : Builder) (ends names : List String) (except : String) : Builder :=
  if b.has ends names then b.onFrames fun frames => closeTo names (closeImplied except frames) else b

def closeContent (b : Builder) (name : String) : Builder :=
  if name = "body" || name = "html" then b
  else if ["button","listing","pre"].contains name || blockNames.contains name then b.closeScoped scopeEnds [name] ""
  else if name = "form" then { b.closeScoped scopeEnds ["form"] "" with inForm := false }
  else if name = "p" then
    let b := if b.has ("button" :: scopeEnds) ["p"] then b else b.insert "p" []
    b.closeParagraph
  else if name = "li" then b.closeScoped ("ol" :: "ul" :: scopeEnds) ["li"] "li"
  else if name = "dd" || name = "dt" then b.closeScoped scopeEnds [name] name
  else if headingNames.contains name then b.closeScoped scopeEnds headingNames ""
  else if formattingNames.contains name then b.endFormatting name
  else if ["applet","marquee","object"].contains name then
    if b.has scopeEnds [name] then (b.closeScoped scopeEnds [name] "").clearToMarker else b
  else if name = "br" then b.reconstruct.insertVoid "br" []
  else b.closeAny name

inductive Mode where
  | content
  | table
  | caption
  | columns
  | rows
  | row
  | cell
  | choice
deriving DecidableEq

def modeOf : List Frame → Mode
  | [] => .content
  | frame :: rest =>
      if frame.name = "td" || frame.name = "th" then .cell
      else if frame.name = "tr" then .row
      else if ["tbody","thead","tfoot"].contains frame.name then .rows
      else if frame.name = "caption" then .caption
      else if frame.name = "colgroup" then .columns
      else if frame.name = "table" then .table
      else if frame.name = "select" then .choice
      else if frame.name = "template" then .content
      else modeOf rest

def rowGroupNames : List String := ["tbody","tfoot","thead"]

def tableTagNames : List String := ["caption","col","colgroup","tbody","td","tfoot","th","thead","tr"]

def clearTo (b : Builder) (names : List String) : Builder :=
  b.onFrames (closeWhile fun frame => !(names.contains frame.name || frame.name = "template" || frame.name = "html"))

-- What a tag does to a table: the table as it is now, and whether the tag is still to be dealt with.
def endPart (b : Builder) (context : List String) : Builder := (b.clearTo context).onFrames (closeFrames 1)

def closeCell (b : Builder) : Builder :=
  (b.onFrames fun frames => closeTo ["td","th"] (closeImplied "" frames)).clearToMarker

def closeCaption (b : Builder) : Builder :=
  (b.onFrames fun frames => closeTo ["caption"] (closeImplied "" frames)).clearToMarker

def contentTag (b : Builder) : Token → Builder
  | .opening name attributes => b.openContent name attributes
  | .closing name => b.closeContent name
  | .text content => b.reconstruct.insertNode (.text content)

def tableTag (b : Builder) (t : Token) (again : Builder → Builder) : Builder :=
  match t with
  | .opening name attributes =>
      if name = "caption" then ((b.clearTo ["table"]).push name attributes false).addMarker
      else if name = "colgroup" then (b.clearTo ["table"]).push name attributes false
      else if name = "col" then
        ((b.clearTo ["table"]).push "colgroup" [] false).onFrames (addChild (.element name attributes []))
      else if rowGroupNames.contains name then (b.clearTo ["table"]).push name attributes false
      else if tableTagNames.contains name then again ((b.clearTo ["table"]).push "tbody" [] false)
      else if name = "table" then
        if b.has tableScopeEnds ["table"] then again (b.onFrames (closeTo ["table"])) else b
      else if ["script","style","template"].contains name then b.push name attributes false
      else if name = "form" then
        if b.inForm then b else { b.onFrames (addChild (.element name attributes [])) with inForm := true }
      else b.contentTag t
  | .closing name =>
      if name = "table" then if b.has tableScopeEnds ["table"] then b.onFrames (closeTo ["table"]) else b
      else if "body" :: "html" :: tableTagNames |>.contains name then b
      else b.contentTag t
  | .text _ => b.contentTag t

-- One tag. `fuel` bounds how often a tag that closes a part is dealt with again.
def tag (b : Builder) (t : Token) : Nat → Builder
  | 0 => b
  | fuel + 1 =>
      let again := fun (b : Builder) => tag b t fuel
      match modeOf b.frames,t with
      | .cell,.opening name _ =>
          if tableTagNames.contains name then again b.closeCell else b.contentTag t
      | .cell,.closing name =>
          if name = "td" || name = "th" then
            if b.has tableScopeEnds [name] then
              (b.onFrames fun frames => closeTo [name] (closeImplied "" frames)).clearToMarker
            else b
          else if ["body","caption","col","colgroup","html"].contains name then b
          else if tableParts.contains name then
            if b.has tableScopeEnds [name] then again b.closeCell else b
          else b.contentTag t
      | .caption,.opening name _ =>
          if tableTagNames.contains name then again b.closeCaption else b.contentTag t
      | .caption,.closing name =>
          if name = "caption" then b.closeCaption
          else if name = "table" then again b.closeCaption
          else if "body" :: "html" :: tableTagNames |>.contains name then b
          else b.contentTag t
      | .row,.opening name attributes =>
          if name = "td" || name = "th" then ((b.clearTo ["tr"]).push name attributes false).addMarker
          else if tableTagNames.contains name then again (b.endPart ["tr"])
          else b.tableTag t again
      | .row,.closing name =>
          if name = "tr" then b.endPart ["tr"]
          else if name = "table" then again (b.endPart ["tr"])
          else if rowGroupNames.contains name then
            if b.has tableScopeEnds [name] then again (b.endPart ["tr"]) else b
          else if ["body","caption","col","colgroup","html","td","th"].contains name then b
          else b.tableTag t again
      | .rows,.opening name attributes =>
          if name = "tr" then (b.clearTo rowGroupNames).push name attributes false
          else if name = "td" || name = "th" then again ((b.clearTo rowGroupNames).push "tr" [] false)
          else if tableTagNames.contains name then again (b.endPart rowGroupNames)
          else b.tableTag t again
      | .rows,.closing name =>
          if rowGroupNames.contains name then
            if b.has tableScopeEnds [name] then b.endPart rowGroupNames else b
          else if name = "table" then again (b.endPart rowGroupNames)
          else if ["body","caption","col","colgroup","html","td","th","tr"].contains name then b
          else b.tableTag t again
      | .columns,.opening name attributes =>
          if name = "col" then b.onFrames (addChild (.element name attributes []))
          else if b.top = "colgroup" then again (b.onFrames (closeFrames 1)) else b
      | .columns,.closing name =>
          if name = "colgroup" then b.onFrames (closeFrames 1)
          else if name = "col" then b
          else if b.top = "colgroup" then again (b.onFrames (closeFrames 1)) else b
      | .table,_ => b.tableTag t again
      | .choice,.opening name attributes =>
          if name = "option" then
            (if b.top = "option" then b.onFrames (closeFrames 1) else b).push name attributes false
          else if name = "optgroup" then
            let b := if b.top = "option" then b.onFrames (closeFrames 1) else b
            (if b.top = "optgroup" then b.onFrames (closeFrames 1) else b).push name attributes false
          else if name = "select" then b.onFrames (closeTo ["select"])
          else if ["input","keygen","textarea"].contains name || tableTagNames.contains name || name = "table" then
            again (b.onFrames (closeTo ["select"]))
          else if name = "script" || name = "template" then b.push name attributes false
          else b
      | .choice,.closing name =>
          if name = "option" then if b.top = "option" then b.onFrames (closeFrames 1) else b
          else if name = "optgroup" then
            let b := match b.frames with
              | first :: second :: _ =>
                  if first.name = "option" && second.name = "optgroup" then b.onFrames (closeFrames 1) else b
              | _ => b
            if b.top = "optgroup" then b.onFrames (closeFrames 1) else b
          else if name = "select" then b.onFrames (closeTo ["select"])
          else if tableParts.contains name || name = "caption" || name = "td" || name = "th" then
            if b.has tableScopeEnds [name] then again (b.onFrames (closeTo ["select"])) else b
          else if name = "script" || name = "template" then b.closeAny name
          else b
      | _,t => b.contentTag t

def allSpace (content : List Char) : Bool := content.all isSpace

def rawTextNames : List String := "title" :: "textarea" :: rawNames ++ ["plaintext"]

-- One run of text. Blanks stay in a table; other text goes before it.
def text (b : Builder) (content : List Char) : Builder :=
  let content := if b.dropLineEnd && content.head? = some '\n' then content.drop 1 else content
  if content.isEmpty then b
  else if rawTextNames.contains b.top then b.onFrames (addChild (.text content))
  else
    let inTable := standsInTable b.frames && modeOf b.frames ≠ .choice
    if inTable && allSpace content then b.onFrames (addChild (.text content))
    else match modeOf b.frames with
      | .columns =>
          let blanks := content.takeWhile isSpace
          let rest := content.dropWhile isSpace
          let b := if blanks.isEmpty then b else b.onFrames (addChild (.text blanks))
          if rest.isEmpty then b else (b.onFrames (closeFrames 1)).contentTag (.text rest)
      | .choice => b.onFrames (addChild (.text content))
      | _ => b.contentTag (.text content)

def step (b : Builder) (t : Token) : Builder :=
  match t with
  | .text content => { b.text content with dropLineEnd := false }
  | .closing name =>
      let b := { b with dropLineEnd := false }
      if rawTextNames.contains b.top && b.top = name then b.onFrames (closeFrames 1)
      else b.tag t (2 * b.frames.length + 4)
  | .opening _ _ => ({ b with dropLineEnd := false }).tag t (2 * b.frames.length + 4)

end Builder

def fragment (html : List Char) : List Node :=
  let b := (tokens html).foldl Builder.step Builder.start
  match closeFrames b.frames.length b.frames with
  | frame :: _ => frame.children.reverse
  | [] => []

end Redline.Html
