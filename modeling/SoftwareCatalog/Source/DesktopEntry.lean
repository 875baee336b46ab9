import SoftwareCatalog.Source.Info

namespace SoftwareCatalog.DesktopEntry

def mainGroup : String := "Desktop Entry"

/-- Categories of panels that are shown within the settings only. -/
def vetoedCategories : List String := ["X-GNOME-Settings-Panel", "X-Unity-Settings-Panel"]

/-- Categories that name a toolkit or a desktop. -/
def ignoredCategories : List String := ["GTK", "Qt", "KDE", "GNOME"]

/-- What a line says. -/
inductive Line where
  | skipped
  | group (name : List Char)
  | pair (key value : List Char)
  | other
deriving DecidableEq, Repr

def groupName? (cs : List Char) : Option (List Char) :=
  match cs with
  | '[' :: r => [']'].isSuffixOf? r
  | _ => none

def Line.ofChars (raw : List Char) : Line :=
  let cs := Text.trimList Text.isBlank raw
  if cs = [] || cs.head? = some '#' then .skipped
  else
    match groupName? cs with
    | some name => .group name
    | none =>
      match Text.breakAt '=' cs with
      | some (key, value) => .pair key value
      | none => .other

/-- A key and its locale, where the two are written `key[locale]`. -/
def splitKey (key : String) : String × Option String :=
  match Text.cut? '[' key with
  | some (base, rest) => (base, (Text.dropEnding? rest "]").bind Text.nonEmpty?)
  | none => (key, none)

/-- The values between semicolons. -/
def listValues (value : String) : List String :=
  ((Text.fields ';' value).map Text.trim).filter (· ≠ "")

def isTrue (value : String) : Bool := value.toList.map Char.toLower == "true".toList

def addCategory (c : Component) (category : String) : Component :=
  let c := if vetoedCategories.contains category then c.addVeto ("Has category " ++ category) else c
  if ignoredCategories.contains category then c else c.addCategory category

def iconOf (value : String) : Icon :=
  let isPath := Text.startsWith value "/"
  { kind := if isPath then .local else .stock, name := some value
    url := if isPath then some value else none, width := 0, height := 0, scale := 1 }

def onlyShownIn (c : Component) (desktops : List String) : Component :=
  match desktops with
  | [] => c.addVeto "Empty OnlyShowIn"
  | [desktop] => { c with projectGroup := some desktop }
  | _ => c

def keywordsOf (value : String) : List String :=
  ((listValues value).flatMap (Text.fields ',')).filter (· ≠ "")

/-- Adds what one key says. -/
def addPair (c : Component) (key : String) (locale : Option String) (value : String) : Component :=
  match key with
  | "Type" => c
  | "Name" | "_Name" => { c with names := c.names.set locale value }
  | "Comment" | "_Comment" => { c with comments := c.comments.set locale value }
  | "Keywords" => (keywordsOf value).foldl (fun c k => c.addKeyword locale k) c
  | "Categories" => (listValues value).foldl addCategory c
  | "MimeType" => (listValues value).foldl Component.addMimetype c
  | "OnlyShowIn" => onlyShownIn c (listValues value)
  | "X-Flatpak-RenamedFrom" => (listValues value).foldl (fun c v => c.addProvide ⟨.id, v⟩) c
  | _ =>
    if key = "Icon" && value ≠ "" then c.addIcon (iconOf value)
    else if key = "NoDisplay" && isTrue value then c.addVeto "NoDisplay=true"
    else if key = "Hidden" && isTrue value then c.addVeto "Hidden=true"
    else if key = "X-AppInstall-Package" && value ≠ "" then c.addPkgname value
    else if Text.startsWith key "X-" && locale.isNone then
      { c with metadata := c.metadata.insert key value }
    else c

/-- What the lines up to now tell. -/
structure Reading where
  component : Component
  inGroup : Bool := false
  seenGroup : Bool := false

/-- The outcome of one line: an entry that is no application ends the reading. -/
inductive Outcome where
  | going (s : Reading)
  | notApplication
  | failed (e : EntryError)

def step (number : Nat) (s : Reading) : Line → Outcome
  | .skipped => .going s
  | .group name =>
    let here := String.ofList name == mainGroup
    .going { s with inGroup := here, seenGroup := s.seenGroup || here }
  | .pair key value =>
    if s.inGroup then
      let (key, locale) := splitKey (Text.trim (String.ofList key))
      let value := Text.trim (String.ofList value)
      if key = "Type" && value ≠ "Application" then .notApplication
      else .going { s with component := addPair s.component key locale value }
    else .going s
  | .other => if s.inGroup then .failed (.notPair number) else .going s

/-- Reads the lines from number `number` on; `none` stands for an entry that is no application. -/
def readLines (number : Nat) (s : Reading) : List (List Char) → Except EntryError (Option Component)
  | [] => if s.seenGroup then .ok (some s.component) else .error .noGroup
  | l :: ls =>
    match step number s (Line.ofChars l) with
    | .going s => readLines (number + 1) s ls
    | .notApplication => .ok none
    | .failed e => .error e

/-- The ID is the name of the file, without a mark of a template. -/
def idOf (basename : String) : String := (Text.dropEnding? basename ".in").getD basename

/-- Reads the launcher of an application. -/
def read (bytes : ByteArray) (source : SourceInfo) : Except SourceError (List Component) := do
  let text ← decodeText bytes
  match source.basename with
  | none => throw .missingId
  | some basename =>
    let id := idOf basename
    let start := { Component.ofId id with kind := .desktop }
    match ← (readLines 1 ⟨start, false, false⟩ (Text.lines text)).mapError .entry with
    | none => return []
    | some c => return [source.stamp .desktop (c.addLaunchable ⟨.desktopId, id⟩)]

end SoftwareCatalog.DesktopEntry
