import Redline.Format.Escape
import Redline.Format.Link
import Redline.Format.Sanitize
import Redline.Markup.Strip

namespace Redline.Format

inductive Filter where
  | reviewMarkup
  | escape
  | lineBreaks
  | sanitize
  | links
deriving DecidableEq, Inhabited

namespace Filter

def name : Filter → String
  | reviewMarkup => "collaboration_markup"
  | escape => "html_escape"
  | lineBreaks => "newline"
  | sanitize => "sanitize_html"
  | links => "url"

def all : List Filter := [reviewMarkup,escape,lineBreaks,sanitize,links]

def ofName? (name : String) : Option Filter := all.find? (·.name = name)

def apply : Filter → List Char → List Char
  | reviewMarkup,text => (Markup.stripChars text).html
  | escape,text => escapeHtml text
  | lineBreaks,text => breakLines text
  | sanitize,text => Format.sanitize text
  | links,text => linkAddresses text

end Filter

abbrev Pipeline := List Filter

namespace Pipeline

def apply (pipeline : Pipeline) (text : List Char) : List Char :=
  pipeline.foldl (fun text filter => filter.apply text) text

end Pipeline

inductive TextFormat where
  | plainText
  | basicHtml
  | fullHtml
deriving DecidableEq, Inhabited

namespace TextFormat

def name : TextFormat → String
  | plainText => "plain_text"
  | basicHtml => "basic_html"
  | fullHtml => "full_html"

def all : List TextFormat := [plainText,basicHtml,fullHtml]

def ofName (name : String) : TextFormat := (all.find? (·.name = name)).getD plainText

def pipeline : TextFormat → Pipeline
  | plainText => [.reviewMarkup,.escape,.lineBreaks]
  | basicHtml => [.reviewMarkup,.sanitize,.links]
  | fullHtml => [.reviewMarkup]

def apply (format : TextFormat) (text : List Char) : List Char := format.pipeline.apply text

end TextFormat

end Redline.Format
