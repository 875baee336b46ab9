import SoftwareCatalog.Text.Fields
import SoftwareCatalog.Xml.Token

namespace SoftwareCatalog.Xml

/-- Text or an element with its content in the order of the document. -/
inductive Node where
  | text (cs : List Char)
  | element (name : String) (attrs : List Attribute) (content : List Node)
deriving Repr, Inhabited

/-- Adds text at the end; text that follows text continues it. Content is held last piece first. -/
def addText (content : List Node) (cs : List Char) : List Node :=
  match content with
  | .text t :: r => .text (t ++ cs) :: r
  | _ => .text cs :: content

/-- An element that is still open, with the content read so far, last piece first. -/
structure Frame where
  name : String
  attrs : List Attribute
  content : List Node

def Frame.close (f : Frame) : Node := .element f.name f.attrs f.content.reverse

/-- A document read so far: the open elements from the innermost one on, and the content outside
all elements, last piece first. -/
structure Reading where
  frames : List Frame
  top : List Node
  declared : Bool

def Reading.modify (f : List Node → List Node) (s : Reading) : Reading :=
  match s.frames with
  | [] => { s with top := f s.top }
  | g :: gs => { s with frames := { g with content := f g.content } :: gs }

def Reading.step (s : Reading) : Token → Except XmlError Reading
  | .text cs => .ok (s.modify (addText · cs))
  | .openTag name attrs => .ok { s with frames := ⟨name, attrs, []⟩ :: s.frames }
  | .emptyTag name attrs => .ok (s.modify (.element name attrs [] :: ·))
  | .closeTag name =>
    match s.frames with
    | [] => .error .malformed
    | f :: fs =>
      if f.name = name then .ok (Reading.modify (f.close :: ·) { s with frames := fs })
      else .error .malformed
  | .declaration => .ok { s with declared := true }

/-- A document: its content outside all elements too, and whether it has an XML declaration. -/
structure Document where
  content : List Node
  declared : Bool

def Document.ofTokens (ts : List Token) : Except XmlError Document := do
  let s ← ts.foldlM Reading.step ⟨[], [], false⟩
  if s.frames.isEmpty then return ⟨s.top.reverse, s.declared⟩ else throw .unexpectedEnd

def Document.parse (text : String) : Except XmlError Document := do
  Document.ofTokens (← tokens text.toList)

namespace Node

def isElement : Node → Bool
  | .text _ => false
  | .element .. => true

def name : Node → String
  | .text _ => ""
  | .element name _ _ => name

def content : Node → List Node
  | .text _ => []
  | .element _ _ content => content

def attr? (n : Node) (key : String) : Option String :=
  match n with
  | .text _ => none
  | .element _ attrs _ => attrs.lookup key

/-- The language of a node; untranslated text has none. -/
def lang? (n : Node) : Option String := (n.attr? "xml:lang").bind Text.nonEmpty?

def children (n : Node) : List Node := n.content.filter isElement

def childrenNamed (n : Node) (name : String) : List Node := n.children.filter (·.name == name)

def child? (n : Node) (name : String) : Option Node := n.children.find? (·.name == name)

/-- The first text of a node that is not blank, trimmed. -/
def text? (n : Node) : Option String :=
  n.content.findSome? fun m =>
    match m with
    | .text cs => if cs.all Text.isBlank then none else some (String.ofList (Text.trimList Text.isBlank cs))
    | .element .. => none

mutual

/-- Writes a node back without its attributes; blank text is left out. -/
def write : Node → List Char
  | .text cs => if cs.all Text.isBlank then [] else escape cs
  | .element name _ content =>
    '<' :: name.toList ++ '>' :: writeAll content ++ '<' :: '/' :: name.toList ++ ['>']

def writeAll : List Node → List Char
  | [] => []
  | n :: ns => write n ++ writeAll ns

end

/-- The content of a node as markup. -/
def markup (n : Node) : String :=
  String.ofList (Text.trimList Text.isBlank (writeAll n.content))

end Node

/-- The first element of a document. -/
def Document.root? (d : Document) : Option Node := d.content.find? Node.isElement

end SoftwareCatalog.Xml
