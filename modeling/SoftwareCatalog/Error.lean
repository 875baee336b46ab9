namespace SoftwareCatalog

/-- Why an XML document was refused. -/
inductive XmlError where
  | malformed | unexpectedEnd | noElement | unexpectedRoot (name : String)
deriving DecidableEq, Repr

def XmlError.message : XmlError → String
  | .malformed => "not well-formed"
  | .unexpectedEnd => "unexpected end of document"
  | .noElement => "document is empty"
  | .unexpectedRoot name => "unexpected root element <" ++ name ++ ">"

/-- Why a YAML catalog was refused. -/
inductive YamlError where
  | malformed | missingHeader
deriving DecidableEq, Repr

def YamlError.message : YamlError → String
  | .malformed => "not well-formed"
  | .missingHeader => "missing DEP-11 header"

/-- Why a desktop entry was refused. -/
inductive EntryError where
  | notPair (line : Nat) | noGroup
deriving DecidableEq, Repr

def EntryError.message : EntryError → String
  | .notPair line => "line " ++ toString line ++ ": expected key=value"
  | .noGroup => "no [Desktop Entry] group"

/-- Why a source could not be read. -/
inductive SourceError where
  | xml (cause : XmlError) | yaml (cause : YamlError) | entry (cause : EntryError)
  | encoding | missingId | unsupported (name : String)
deriving DecidableEq, Repr

def SourceError.message : SourceError → String
  | .xml cause => "invalid XML: " ++ cause.message
  | .yaml cause => "invalid YAML: " ++ cause.message
  | .entry cause => "invalid desktop entry: " ++ cause.message
  | .encoding => "source is not valid UTF-8"
  | .missingId => "component has no <id>"
  | .unsupported name => "unsupported source format: " ++ name

/-- Why settings were refused. -/
inductive SettingsError where
  | malformed | noWorkers | noLocales
deriving DecidableEq, Repr

def SettingsError.message : SettingsError → String
  | .malformed => "Invalid store configuration"
  | .noWorkers => "search.workers must be at least 1"
  | .noLocales => "search.locales must not be empty"

/-- Why a file could not be read. -/
inductive FileError where
  | notFound | notADirectory | isADirectory | notUtf8
deriving DecidableEq, Repr

def FileError.message : FileError → String
  | .notFound => "No such file or directory (os error 2)"
  | .notADirectory => "Not a directory (os error 20)"
  | .isADirectory => "Is a directory (os error 21)"
  | .notUtf8 => "stream did not contain valid UTF-8"

/-- Why an operation on the catalog failed. -/
inductive CatalogError where
  | unreadable (path : String) (cause : FileError)
  | source (path : String) (cause : SourceError)
  | settings (cause : SettingsError)
  | invalidUniqueId (text : String)
  | cancelled
deriving DecidableEq, Repr

def CatalogError.message : CatalogError → String
  | .unreadable path cause => "I/O error: Failed to read " ++ path ++ ": " ++ cause.message
  | .source path cause => "Failed to parse " ++ path ++ ": " ++ cause.message
  | .settings cause => "Configuration error: " ++ cause.message
  | .invalidUniqueId text => "Invalid unique ID: " ++ text
  | .cancelled => "Operation cancelled"

end SoftwareCatalog
