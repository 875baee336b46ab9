import SoftwareCatalog.Component.Basic

namespace SoftwareCatalog

/-- What is known of a source before it is read. -/
@[ext] structure SourceInfo where
  filename : Option String := none
  scope : Scope := .unset
  arch : Option String := none
deriving DecidableEq, Repr

namespace SourceInfo

def ofFilename (filename : String) : SourceInfo := { filename := some filename }

def formatKind (s : SourceInfo) : FormatKind := (s.filename.map FormatKind.ofFilename).getD .unset

/-- The last part of the file name. -/
def basename (s : SourceInfo) : Option String :=
  (s.filename.bind fun f => (Text.fields '/' f).getLast?).bind Text.nonEmpty?

def format (s : SourceInfo) (kind : FormatKind) : Format :=
  match s.filename with
  | none => Format.ofKind kind
  | some f => (Format.ofKind kind).withFilename f

/-- Marks a component as read from a source. -/
def stamp (s : SourceInfo) (kind : FormatKind) (c : Component) : Component :=
  let c := c.addFormat (s.format kind)
  let c := if s.scope = .unset then c else { c with scope := s.scope }
  match s.arch with
  | none => c
  | some a => c.addArchitecture a

end SourceInfo

/-- The text of a source. -/
def decodeText (bytes : ByteArray) : Except SourceError String :=
  match String.fromUTF8? bytes with
  | none => .error .encoding
  | some text => .ok text

end SoftwareCatalog
