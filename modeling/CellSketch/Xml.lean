/-!
# Xml — elements and how they are written

An element has a name, attributes in order, text and elements inside.  Writing escapes the
characters that would be taken for markup, and line breaks in attributes; an element with nothing
inside is closed at once.
-/

namespace CellSketch

inductive Xml where
  | element (name : String) (attributes : List (String × String)) (text : String)
      (children : List Xml)

namespace Xml

def escapeTextChar : Char → List Char
  | '&' => "&amp;".toList
  | '<' => "&lt;".toList
  | '>' => "&gt;".toList
  | c => [c]

/-- Text between tags. -/
def escapeText (text : List Char) : List Char := text.flatMap escapeTextChar

def escapeAttributeChar : Char → List Char
  | '&' => "&amp;".toList
  | '<' => "&lt;".toList
  | '>' => "&gt;".toList
  | '"' => "&quot;".toList
  | '\r' => "&#13;".toList
  | '\n' => "&#10;".toList
  | '\t' => "&#09;".toList
  | c => [c]

/-- Text between the quotes of an attribute. -/
def escapeAttribute (text : List Char) : List Char := text.flatMap escapeAttributeChar

def writeAttribute (a : String × String) : String :=
  " " ++ a.1 ++ "=\"" ++ String.ofList (escapeAttribute a.2.toList) ++ "\""

mutual
/-- The text of an element. -/
def write : Xml → String
  | element name attributes text children =>
      let start := "<" ++ name ++ String.join (attributes.map writeAttribute)
      if text.isEmpty && children.isEmpty then start ++ " />"
      else
        start ++ ">" ++ String.ofList (escapeText text.toList) ++ writeAll children ++
          "</" ++ name ++ ">"

/-- The text of elements in order. -/
def writeAll : List Xml → String
  | [] => ""
  | x :: rest => write x ++ writeAll rest
end

end Xml
end CellSketch
