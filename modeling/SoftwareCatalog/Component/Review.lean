namespace SoftwareCatalog

/-- The opinion of one user. -/
@[ext] structure Review where
  id : Option String
  summary : Option String
  description : Option String
  reviewerName : Option String
  locale : Option String
  version : Option String
  rating : Nat
  date : Nat
deriving DecidableEq

/-- Reviews are told apart by their IDs, where both have one, and else by their content. -/
def Review.same (a b : Review) : Bool :=
  match a.id, b.id with
  | some i, some j => i == j
  | _, _ => a == b

end SoftwareCatalog
