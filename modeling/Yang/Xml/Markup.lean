/-!
# Writing XML

Markup is what a document is written from: tags with the namespaces they declare, and
text. Five characters are escaped in text and in attribute values; names are written as
they are. Nothing is put between the parts.
-/

namespace Yang.Xml

/-- A part of a document to be written. Names are written without qualifier,
each in the default namespace. -/
inductive Markup
  /-- An element that is one tag. The tag may declare the default namespace. -/
  | void (name : String) (declared : Option String)
  | element (name : String) (declared : Option String) (children : List Markup)
  | text (s : String)

def escapeChar : Char → List Char
  | '<' => ['&', 'l', 't', ';']
  | '>' => ['&', 'g', 't', ';']
  | '&' => ['&', 'a', 'm', 'p', ';']
  | '\'' => ['&', 'a', 'p', 'o', 's', ';']
  | '"' => ['&', 'q', 'u', 'o', 't', ';']
  | c => [c]

def escape (s : String) : List Char := s.toList.flatMap escapeChar

/-- The inside of a start tag: the name and the declaration of the default
namespace. -/
def tagInside (name : String) : Option String → List Char
  | none => name.toList
  | some uri => name.toList ++ " xmlns=\"".toList ++ escape uri ++ ['"']

mutual

def Markup.chars : Markup → List Char
  | .void name declared => '<' :: tagInside name declared ++ ['/', '>']
  | .element name declared children =>
    '<' :: tagInside name declared ++ '>' :: Markup.charsOfAll children ++
      '<' :: '/' :: name.toList ++ ['>']
  | .text s => escape s

def Markup.charsOfAll : List Markup → List Char
  | [] => []
  | m :: ms => m.chars ++ Markup.charsOfAll ms

end

def Markup.written (m : Markup) : String := String.ofList m.chars

end Yang.Xml
