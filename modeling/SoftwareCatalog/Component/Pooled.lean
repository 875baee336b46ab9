import SoftwareCatalog.Component.Basic

namespace SoftwareCatalog

def TextMap.texts (m : TextMap String) : List String := m.keys ++ m.values

def Release.pooledTexts (r : Release) : List String := r.version.toList ++ r.locations

namespace Component

/-- The texts that components share. Descriptions are long and rarely alike: of them only the
locales are shared. -/
def pooledTexts (c : Component) : List String :=
  c.origin.toList ++ c.id.toList ++ c.branch.toList ++ c.projectLicense.toList ++
  c.metadataLicense.toList ++ c.projectGroup.toList ++ c.sourcePkgname.toList ++
  c.descriptions.keys ++ c.names.texts ++ c.comments.texts ++ c.developerNames.texts ++
  c.urls.texts ++ c.metadata.texts ++ c.keywords.keys ++ c.keywords.values.flatten ++
  c.categories ++ c.kudos ++ c.permissions ++ c.mimetypes ++ c.pkgnames ++ c.architectures ++
  c.extendedIds ++ c.vetoes ++ c.formats.filterMap (·.filename) ++
  c.releases.flatMap Release.pooledTexts ++ c.provides.map (·.value) ++
  c.launchables.map (·.value)

end Component

end SoftwareCatalog
