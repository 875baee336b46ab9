import SoftwareCatalog.Settings.Basic
import SoftwareCatalog.Settings.Locales
import SoftwareCatalog.Toml.Document

namespace SoftwareCatalog

open Toml (Value Table)

namespace Settings

/-- The values of named fields: by name in a table, by position in a list, and none in a moment. -/
def fields (names : List String) : Value → Except SettingsError (List (Option Value))
  | .table t | .inline t => .ok (names.map t.get?)
  | .array vs => .ok ((List.range names.length).map fun i => vs[i]?)
  | .tables ts => .ok ((List.range names.length).map fun i => ts.reverse[i]?.map Value.table)
  | .moment _ => .ok (names.map fun _ => none)
  | _ => .error .malformed

def asBool : Value → Except SettingsError Bool
  | .bool b => .ok b
  | _ => .error .malformed

def asNat : Value → Except SettingsError Nat
  | .int n => if 0 ≤ n then .ok n.toNat else .error .malformed
  | _ => .error .malformed

def asText : Value → Except SettingsError String
  | .string s => .ok s
  | _ => .error .malformed

def asTexts : Value → Except SettingsError (List String)
  | .array vs => vs.mapM asText
  | _ => .error .malformed

/-- A field that is missing keeps the default. -/
def field {α : Type} (read : Value → Except SettingsError α) (d : α) (v : Option Value) :
    Except SettingsError α :=
  v.elim (.ok d) read

def asAdd (v : Value) : Except SettingsError AddSettings := do
  match ← fields ["use_unique_id", "prefer_local", "use_merge_heuristic"] v with
  | [a, b, c] => return ⟨← field asBool false a, ← field asBool false b, ← field asBool false c⟩
  | _ => return {}

def asLoad (v : Value) : Except SettingsError LoadSettings := do
  match ← fields ["ignore_invalid", "only_native_languages"] v with
  | [a, b] => return ⟨← field asBool false a, ← field asBool false b⟩
  | _ => return {}

def asSearch (d : SearchSettings) (v : Value) : Except SettingsError SearchSettings := do
  match ← fields ["locales", "workers", "stemming", "min_token_length"] v with
  | [a, b, c, e] =>
    return {
      locales := ← field asTexts d.locales a, workers := ← field asNat d.workers b
      stemming := ← field asBool d.stemming c, minTokenLength := ← field asNat d.minTokenLength e }
  | _ => return d

/-- The settings where nothing is said. -/
def standard (e : Locales.Environment) : Settings := { search := { locales := Locales.ofEnvironment e } }

/-- Reads settings; other entries of the document are left alone. -/
def parse (e : Locales.Environment) (text : String) : Except SettingsError Settings := do
  let d := standard e
  let t ← Toml.readDocument text
  let s : Settings := {
    add := ← field asAdd d.add (t.get? "add")
    load := ← field asLoad d.load (t.get? "load")
    search := ← field (asSearch d.search) d.search (t.get? "search") }
  s.check

def renderBool (b : Bool) : String := if b then "true" else "false"

/-- One item stands on the line of its key, several on lines of their own. -/
def renderTexts (ss : List String) : String :=
  match ss with
  | [] => "[]"
  | [s] => "[" ++ Toml.writeText s ++ "]"
  | ss => "[\n" ++ String.join (ss.map fun s => "    " ++ Toml.writeText s ++ ",\n") ++ "]"

def renderSection (name : String) (es : List (String × String)) : String :=
  "[" ++ name ++ "]\n" ++ String.join (es.map fun e => e.1 ++ " = " ++ e.2 ++ "\n")

/-- Writes all settings. -/
def render (s : Settings) : String :=
  "\n".intercalate [
    renderSection "add" [
      ("use_unique_id", renderBool s.add.useUniqueId), ("prefer_local", renderBool s.add.preferLocal),
      ("use_merge_heuristic", renderBool s.add.useMergeHeuristic)],
    renderSection "load" [
      ("ignore_invalid", renderBool s.load.ignoreInvalid),
      ("only_native_languages", renderBool s.load.onlyNativeLanguages)],
    renderSection "search" [
      ("locales", renderTexts s.search.locales), ("workers", toString s.search.workers),
      ("stemming", renderBool s.search.stemming),
      ("min_token_length", toString s.search.minTokenLength)]]

/-- Reads settings from the bytes of a file, if there is one. -/
def ofFile (e : Locales.Environment) (path : String) (bytes : Option ByteArray) :
    Except CatalogError Settings :=
  match bytes with
  | none => .error (.unreadable path .notFound)
  | some bytes =>
    match String.fromUTF8? bytes with
    | none => .error (.unreadable path .notUtf8)
    | some text => (parse e text).mapError .settings

end Settings

end SoftwareCatalog
