import Redline.Text.Search

namespace Redline.Format

-- In the order of replacement. The ampersand comes first, since every entity holds one.
def entities : List (Char × List Char) :=
  [('&',['&','a','m','p',';']),('<',['&','l','t',';']),('>',['&','g','t',';']),
    ('"',['&','q','u','o','t',';']),('\'',['&','#','x','2','7',';'])]

-- One replacement of the whole text after the other, each on what the one before has left.
def escapeHtml (text : List Char) : List Char :=
  entities.foldl (fun text entry => Text.substitute entry.1 entry.2 text) text

def lineBreak : List Char := ['<','b','r','>','\n']

def breakLines (text : List Char) : List Char := Text.substitute '\n' lineBreak text

end Redline.Format
