import SoftwareCatalog.Path

namespace SoftwareCatalog.Locations

/-- Where catalogs of the system lie. -/
def system : List String := [
  "/usr/share/swcatalog/xml", "/usr/share/swcatalog/yaml", "/usr/share/app-info/xmls",
  "/usr/share/app-info/yaml", "/var/cache/swcatalog/xml", "/var/cache/app-info/xmls",
  "/usr/share/metainfo", "/usr/share/appdata", "/usr/share/applications"]

/-- Where catalogs lie below the data directory of a user. -/
def directories : List String := [
  "swcatalog/xml", "swcatalog/yaml", "app-info/xmls", "app-info/yaml", "metainfo", "applications"]

/-- The data directory of a user; only an absolute one is taken from the environment. -/
def dataDirectory (dataHome home : Option String) : Option String :=
  match dataHome.filter fun d => Text.startsWith d "/" with
  | some d => some d
  | none => home.map fun h => Path.join h ".local/share"

def user (dataHome home : Option String) : List String :=
  match dataDirectory dataHome home with
  | none => []
  | some base => directories.map (Path.join base)

end SoftwareCatalog.Locations
