import SoftwareCatalog.Xml.Escape

namespace SoftwareCatalog.Xml

abbrev Attribute := String × String

/-- The pieces of a document that carry meaning. -/
inductive Token where
  | text (cs : List Char)
  | openTag (name : String) (attrs : List Attribute)
  | emptyTag (name : String) (attrs : List Attribute)
  | closeTag (name : String)
  | declaration
deriving DecidableEq, Repr

def isSpace (c : Char) : Bool := c = ' ' || c = '\t' || c = '\r' || c = '\n'

/-- Splits at the first `>` where `ends` holds of what was read before it, last character first. -/
def splitAtClose (ends : List Char → Bool) (seen : List Char) :
    List Char → Option (List Char × List Char)
  | [] => none
  | c :: cs =>
    if c = '>' && ends seen then some (seen.reverse, cs) else splitAtClose ends (c :: seen) cs

theorem length_of_splitAtClose {ends : List Char → Bool} {seen cs a b : List Char}
    (h : splitAtClose ends seen cs = some (a, b)) : b.length < cs.length := by
  induction cs generalizing seen with
  | nil => simp [splitAtClose] at h
  | cons c cs ih =>
    simp only [splitAtClose] at h
    split at h
    · simp only [Option.some.injEq, Prod.mk.injEq] at h
      simp [← h.2]
    · have := ih h
      simp only [List.length_cons]
      omega

/-- The quote that is open after `c`. -/
def quoteAfter (quote : Option Char) (c : Char) : Option Char :=
  match quote with
  | some q => if c = q then none else some q
  | none => if c = '"' || c = '\'' then some c else none

/-- Splits a tag at the first `>` outside quotes. -/
def splitTag (quote : Option Char) : List Char → Option (List Char × List Char)
  | [] => none
  | c :: cs =>
    if c = '>' && quote.isNone then some ([], cs)
    else (splitTag (quoteAfter quote c) cs).map fun r => (c :: r.1, r.2)

theorem length_of_splitTag {quote : Option Char} {cs a b : List Char}
    (h : splitTag quote cs = some (a, b)) : b.length < cs.length := by
  induction cs generalizing quote a with
  | nil => simp [splitTag] at h
  | cons c cs ih =>
    simp only [splitTag] at h
    split at h
    · simp only [Option.some.injEq, Prod.mk.injEq] at h
      simp [← h.2]
    · obtain ⟨⟨a', b'⟩, h', he⟩ := Option.map_eq_some_iff.1 h
      simp only [Prod.mk.injEq] at he
      have := ih (he.2 ▸ h')
      simp only [List.length_cons]
      omega

/-- Splits at the quote `q`. -/
def splitAtQuote (q : Char) : List Char → Option (List Char × List Char)
  | [] => none
  | c :: cs => if c = q then some ([], cs) else (splitAtQuote q cs).map fun r => (c :: r.1, r.2)

/-- What follows the equals sign behind a key. -/
def behindEquals (cs : List Char) : Option (List Char) :=
  match cs.dropWhile isSpace with
  | '=' :: r => some r
  | _ => none

/-- Reads a quoted value; what follows the quote is not looked at. -/
def quotedValue (cs : List Char) : Option (List Char × List Char) :=
  match cs.dropWhile isSpace with
  | c :: r => if c = '"' || c = '\'' then splitAtQuote c r else none
  | [] => none

/-- Reads the attribute whose key begins with `c`. -/
def oneAttribute (c : Char) (cs : List Char) : Option (List Char × List Char × List Char) := do
  let key := c :: cs.takeWhile fun d => d ≠ '=' && !isSpace d
  let r ← behindEquals (cs.dropWhile fun d => d ≠ '=' && !isSpace d)
  let (value, rest) ← quotedValue r
  return (key, value, rest)

/-- Reads up to `fuel` attributes, no two of one key. -/
def attributesFrom : Nat → List String → List Char → Except XmlError (List Attribute)
  | 0, _, _ => .ok []
  | fuel + 1, keys, cs =>
    match cs.dropWhile isSpace with
    | [] => .ok []
    | c :: r =>
      match oneAttribute c r with
      | none => .error .malformed
      | some (key, value, rest) =>
        if keys.contains (String.ofList key) then .error .malformed
        else do
          let v ← unescape value
          let more ← attributesFrom fuel (String.ofList key :: keys) rest
          return (String.ofList key, String.ofList v) :: more

/-- The attributes of a tag; each takes several characters, so there are fewer than characters. -/
def attributes (cs : List Char) : Except XmlError (List Attribute) :=
  attributesFrom cs.length [] cs

def openToken (cs : List Char) : Except XmlError Token :=
  match ['/'].isSuffixOf? cs with
  | some r => do
    return .emptyTag (String.ofList (r.takeWhile fun c => !isSpace c))
      (← attributes (r.dropWhile fun c => !isSpace c))
  | none => do
    return .openTag (String.ofList (cs.takeWhile fun c => !isSpace c))
      (← attributes (cs.dropWhile fun c => !isSpace c))

/-- The tokens of a processing instruction, without its angle brackets. -/
def instruction (cs : List Char) : Except XmlError (List Token) :=
  match cs with
  | '?' :: r =>
    match ['?'].isSuffixOf? r with
    | none => .error .malformed
    | some body =>
      match "xml".toList.isPrefixOf? body with
      | some t => if t.head?.all isSpace then .ok [.declaration] else .ok []
      | none => .ok []
  | _ => .error .malformed

/-- How a section that begins with an exclamation mark ends. -/
def bangEnds : List Char → Option (List Char → Bool)
  | '-' :: _ => some fun seen => 4 < seen.length && ['-', '-'].isPrefixOf seen
  | '[' :: _ => some fun seen => [']', ']'].isPrefixOf seen
  | 'D' :: _ | 'd' :: _ => some fun seen => seen.count '<' == seen.count '>'
  | _ => none

/-- The tokens of a comment, a character section or a document type, without the angle brackets. -/
def bang (cs : List Char) : Except XmlError (List Token) :=
  if "!--".toList.isPrefixOf cs then .ok []
  else
    match "![CDATA[".toList.isPrefixOf? cs with
    | some r => .ok [.text (r.take (r.length - 2))]
    | none =>
      if (cs.take 8).map Char.toUpper = "!DOCTYPE".toList && (cs.drop 8).any fun c => !isSpace c then .ok []
      else .error .malformed

/-- The token of markup that begins behind `<`, and the rest. -/
def markup (cs : List Char) : Except XmlError (List Token × List Char) :=
  match cs with
  | [] => .error .malformed
  | '!' :: r =>
    match bangEnds r with
    | none => .error .malformed
    | some ends =>
      match splitAtClose ends [] cs with
      | none => .error .malformed
      | some (body, rest) => (bang body).map fun ts => (ts, rest)
  | '/' :: _ =>
    match splitTag none cs with
    | none => .error .malformed
    | some (body, rest) =>
      .ok ([.closeTag (String.ofList ((body.drop 1).reverse.dropWhile isSpace).reverse)], rest)
  | '?' :: _ =>
    match splitAtClose (fun seen => seen.head? == some '?') [] cs with
    | none => .error .malformed
    | some (body, rest) => (instruction body).map fun ts => (ts, rest)
  | _ =>
    match splitTag none cs with
    | none => .error .malformed
    | some (body, rest) => (openToken body).map fun t => ([t], rest)

theorem length_of_markup {cs : List Char} {ts : List Token} {rest : List Char}
    (h : markup cs = .ok (ts, rest)) : rest.length < cs.length := by
  unfold markup at h
  split at h
  · simp at h
  · split at h
    · simp at h
    · split at h
      · simp at h
      · rename_i hs
        cases hb : bang _ with
        | error e => rw [hb] at h; simp [Except.map] at h
        | ok v =>
          rw [hb] at h
          simp only [Except.map, Except.ok.injEq, Prod.mk.injEq] at h
          exact h.2 ▸ length_of_splitAtClose hs
  · split at h
    · simp at h
    · rename_i hs
      simp only [Except.ok.injEq, Prod.mk.injEq] at h
      exact h.2 ▸ length_of_splitTag hs
  · split at h
    · simp at h
    · rename_i hs
      cases hb : instruction _ with
      | error e => rw [hb] at h; simp [Except.map] at h
      | ok v =>
        rw [hb] at h
        simp only [Except.map, Except.ok.injEq, Prod.mk.injEq] at h
        exact h.2 ▸ length_of_splitAtClose hs
  · split at h
    · simp at h
    · rename_i hs
      cases hb : openToken _ with
      | error e => rw [hb] at h; simp [Except.map] at h
      | ok v =>
        rw [hb] at h
        simp only [Except.map, Except.ok.injEq, Prod.mk.injEq] at h
        exact h.2 ▸ length_of_splitTag hs

theorem length_dropWhile_le (p : Char → Bool) (cs : List Char) :
    (cs.dropWhile p).length ≤ cs.length :=
  (List.dropWhile_suffix p).length_le

def isText (c : Char) : Bool := c ≠ '<'

/-- The tokens of a text, from the start of the text or from the end of a tag on. -/
def tokensFrom (cs : List Char) : Except XmlError (List Token) :=
  match cs with
  | [] => .ok []
  | c :: r =>
    if c = '<' then
      match h : markup r with
      | .error e => .error e
      | .ok (ts, rest) =>
        have : rest.length < r.length + 1 := Nat.lt_succ_of_lt (length_of_markup h)
        (tokensFrom rest).map (ts ++ ·)
    else do
      let t ← unescape (c :: r.takeWhile isText)
      have : (r.dropWhile isText).length < r.length + 1 := Nat.lt_succ_of_le (length_dropWhile_le _ _)
      let more ← tokensFrom (r.dropWhile isText)
      return .text t :: more
termination_by cs.length

/-- The tokens of a document; a mark of the byte order in front of it is dropped. -/
def tokens (cs : List Char) : Except XmlError (List Token) :=
  match cs with
  | '\uFEFF' :: r => tokensFrom r
  | _ => tokensFrom cs

end SoftwareCatalog.Xml
