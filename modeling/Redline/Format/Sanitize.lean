import Redline.Html.Fragment
import Redline.Format.Address

namespace Redline.Format

open Redline.Html

def allowedElements : List String :=
  ["a","abbr","acronym","area","article","aside","b","bdi","bdo","blockquote","br","caption",
    "center","cite","code","col","colgroup","data","dd","del","details","dfn","div","dl","dt",
    "em","figcaption","figure","footer","h1","h2","h3","h4","h5","h6","header","hgroup","hr",
    "i","img","ins","kbd","li","map","mark","nav","ol","p","pre","q","rp","rt","rtc","ruby",
    "s","samp","small","span","strike","strong","sub","summary","sup","table","tbody","td","th",
    "thead","time","tr","tt","u","ul","var","wbr"]

def removedElements : List String := ["script","style","template"]

def commonAttributes : List String := ["lang","title"]

def attributesOf (element : String) : List String :=
  if element = "a" then ["href","hreflang"]
  else if element = "bdo" then ["dir"]
  else if element = "blockquote" || element = "q" then ["cite"]
  else if element = "col" || element = "colgroup" then ["align","char","charoff","span"]
  else if element = "del" || element = "ins" then ["cite","datetime"]
  else if element = "hr" then ["align","size","width"]
  else if element = "img" then ["align","alt","height","src","width"]
  else if element = "ol" then ["start"]
  else if element = "table" then ["align","char","charoff","summary"]
  else if element = "tbody" || element = "thead" || element = "tfoot" || element = "tr" then
    ["align","char","charoff"]
  else if element = "td" then ["align","char","charoff","colspan","headers","rowspan"]
  else if element = "th" then ["align","char","charoff","colspan","headers","rowspan","scope"]
  else []

def isAddressAttribute (name : String) : Bool := name = "href" || name = "src"

def isAllowed (element : String) (a : Attribute) : Bool :=
  (commonAttributes.contains a.name || (attributesOf element).contains a.name) &&
    (!isAddressAttribute a.name || isSafeAddress a.value)

def linkRelation : Attribute := ⟨"rel","noopener noreferrer".toList⟩

def cleanAttributes (element : String) (attributes : List Attribute) : List Attribute :=
  attributes.filter (isAllowed element) ++ if element = "a" then [linkRelation] else []

mutual

def cleanNode : Html.Node → List Html.Node
  | .text content => [.text content]
  | .element name attributes children =>
      if removedElements.contains name then []
      else if allowedElements.contains name then [.element name (cleanAttributes name attributes) (cleanNodes children)]
      else cleanNodes children

def cleanNodes : List Html.Node → List Html.Node
  | [] => []
  | node :: rest => cleanNode node ++ cleanNodes rest

end

def sanitize (html : List Char) : List Char := Html.Node.htmlAll (cleanNodes (fragment html))

end Redline.Format
