import SoftwareCatalog.Text.Fields
import SoftwareCatalog.TextMap

namespace SoftwareCatalog.Search

/-- For each token the attributes it occurs in. -/
@[ext] structure TokenCache where
  tokens : TextMap Nat
deriving DecidableEq

namespace TokenCache

def empty : TokenCache := ⟨.empty⟩

def insert (t : TokenCache) (e : String × Nat) : TokenCache := ⟨t.tokens.modifyD e.1 0 (· ||| e.2)⟩

def size (t : TokenCache) : Nat := t.tokens.size

def get? (t : TokenCache) (token : String) : Option Nat := t.tokens.get? token

/-- The weights of the tokens that begin with `token`. -/
def prefixWeight (t : TokenCache) (token : String) : Nat :=
  (t.tokens.entries.filter fun e => Text.startsWith e.1 token).foldl (fun w e => w ||| e.2) 0

/-- A token that occurs as such counts four times as much as the beginning of others. -/
def score (t : TokenCache) (token : String) : Nat :=
  match t.get? token with
  | some w => w <<< 2
  | none => t.prefixWeight token

/-- All tokens of a query have to score. -/
def scoreAll (t : TokenCache) (tokens : List String) : Nat :=
  if tokens.any fun token => t.score token == 0 then 0
  else tokens.foldl (fun s token => s ||| t.score token) 0

end TokenCache

end SoftwareCatalog.Search
