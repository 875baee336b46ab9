import SoftwareCatalog.Source.Dep11
import SoftwareCatalog.Source.DesktopEntry
import SoftwareCatalog.Source.Metainfo

namespace SoftwareCatalog

/-- A way to turn a source into components. -/
abbrev Reader := ByteArray → SourceInfo → Except SourceError (List Component)

namespace Reader

/-- White space in front of a document whose name tells nothing. -/
def isLeadingSpace (b : UInt8) : Bool := b = 0x20 || b = 0x9 || b = 0xA || b = 0xC || b = 0xD

/-- Whether the bytes look like XML. -/
def looksLikeXml (bytes : ByteArray) : Bool :=
  (bytes.data.toList.dropWhile isLeadingSpace).head? == some '<'.toUInt8

/-- The reader for a source by its name, else by its first character. -/
def choose (name : String) (kind : FormatKind) (bytes : ByteArray) : Option Reader :=
  if Text.endsWith name ".yml" || Text.endsWith name ".yaml" then some Dep11.read
  else
    match kind with
    | .desktop => some DesktopEntry.read
    | .appStream | .appData | .metaInfo => if Text.endsWith name ".gz" then none else some Metainfo.read
    | .unset => if looksLikeXml bytes then some Metainfo.read else none

/-- Reads a source of any supported format. -/
def any : Reader := fun bytes source =>
  let name := source.filename.getD ""
  match choose name source.formatKind bytes with
  | some read => read bytes source
  | none => .error (.unsupported name)

end Reader

end SoftwareCatalog
