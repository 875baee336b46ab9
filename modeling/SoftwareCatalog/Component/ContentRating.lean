import SoftwareCatalog.Component.Locale
import SoftwareCatalog.Component.Word

namespace SoftwareCatalog

/-- How intense a rated sort of content is. -/
inductive RatingValue where
  | unset | absent | mild | moderate | intense
deriving DecidableEq, Repr, Inhabited

namespace RatingValue

def name : RatingValue → String
  | .unset => "unknown"
  | .absent => "none"
  | .mild => "mild"
  | .moderate => "moderate"
  | .intense => "intense"

def ofName? : String → Option RatingValue
  | "none" => some .absent
  | "mild" => some .mild
  | "moderate" => some .moderate
  | "intense" => some .intense
  | _ => none

instance : Word RatingValue := ⟨name, ofName?⟩

theorem ofName?_name {k : RatingValue} (h : k ≠ .unset) : ofName? k.name = some k := by
  cases k <;> simp_all [name, ofName?]

end RatingValue

namespace RatingValue

def level : RatingValue → Nat
  | .unset => 0
  | .absent => 1
  | .mild => 2
  | .moderate => 3
  | .intense => 4

end RatingValue

/-- A content rating under one rating system. -/
@[ext] structure ContentRating where
  kind : String
  attributes : TextMap RatingValue
deriving DecidableEq

namespace ContentRating

def same (a b : ContentRating) : Bool := a.kind == b.kind

/-- A sort of content that is not listed is absent. -/
def value (r : ContentRating) (id : String) : RatingValue := r.attributes.getD id .absent

end ContentRating

end SoftwareCatalog
