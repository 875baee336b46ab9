namespace SoftwareCatalog.Search

structure Hit where
  score : Nat
  uniqueId : String
deriving DecidableEq, Repr

namespace Hit

/-- Higher scores come first, of equal scores the smaller unique ID. -/
def before (a b : Hit) : Bool :=
  b.score < a.score || (a.score == b.score && !decide (b.uniqueId < a.uniqueId))

def rank (hits : List Hit) : List Hit := hits.mergeSort before

end Hit

end SoftwareCatalog.Search
