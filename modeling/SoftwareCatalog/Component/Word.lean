namespace SoftwareCatalog

/-- A kind that catalogs write as a word. The default value stands for a missing or unknown word. -/
class Word (α : Type) where
  name : α → String
  ofName? : String → Option α

/-- The kind a word stands for, the default one where it stands for none. -/
def Word.read {α : Type} [Word α] [Inhabited α] (s : Option String) : α :=
  (s.bind Word.ofName?).getD default

end SoftwareCatalog
