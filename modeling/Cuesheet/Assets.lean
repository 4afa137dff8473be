import Cuesheet.Engine.Format
import Cuesheet.Program.Basic
import Cuesheet.Settings

/-!
# Layout, style sheets and languages

Assets that were loaded beforehand are taken as they are. What is not loaded is made from the
program: a container element for each selector its timelines use, the paths of its style imports,
and the default language.
-/

set_option autoImplicit false

namespace Cuesheet

/-- The languages that were loaded. -/
structure Locale where
  defaultLanguage : String
  languages : List Engine.LanguageLabel
  deriving Repr, DecidableEq

/-- The assets that were loaded. -/
structure Assets where
  layoutTemplate : Option String
  cssFiles : Option (List String)
  locale : Option Locale
  deriving Repr, DecidableEq

namespace Locale

def toJson (l : Locale) : Json :=
  .object [("defaultLanguage", .string l.defaultLanguage),
    ("languages", .array (l.languages.map (·.toJson)))]

def ofJson? (j : Json) : Option Locale := do
  match ← j.fields? ["defaultLanguage", "languages"] with
  | [defaultLanguage, languages] =>
    return {
      defaultLanguage := ← Json.required Json.string? defaultLanguage
      languages := ← Json.withDefault (Json.listOf? Engine.LanguageLabel.ofJson?) [] languages }
  | _ => none

end Locale

namespace Assets

def empty : Assets := ⟨none, none, none⟩

instance : Inhabited Assets := ⟨empty⟩

def toJson (a : Assets) : Json :=
  .object [("layoutTemplate", .ofString? a.layoutTemplate),
    ("cssFiles", (a.cssFiles.map Json.ofStrings).getD .null),
    ("locale", (a.locale.map Locale.toJson).getD .null)]

def ofJson? (j : Json) : Option Assets := do
  match ← j.fields? ["layoutTemplate", "cssFiles", "locale"] with
  | [layoutTemplate, cssFiles, locale] =>
    return {
      layoutTemplate := ← Json.optional Json.string? layoutTemplate
      cssFiles := ← Json.optional (Json.listOf? Json.string?) cssFiles
      locale := ← Json.optional Locale.ofJson? locale }
  | _ => none

end Assets

/-! ## Layout -/

namespace Layout

/-- Letters, digits, hyphens and underscores of ASCII. -/
def isNameChar (c : Char) : Bool := c.isAlphanum || c == '-' || c == '_'

/-- Whether a text can be an id or a class. -/
def isName (text : List Char) : Bool := !text.isEmpty && text.all isNameChar

/-- A character inside a quoted attribute. -/
def escapeChar (c : Char) : List Char :=
  if c = '&' then "&amp;".toList
  else if c = '"' then "&quot;".toList
  else if c = '<' then "&lt;".toList
  else if c = '>' then "&gt;".toList
  else [c]

/-- A text inside a quoted attribute. -/
def escape (text : List Char) : List Char := text.flatMap escapeChar

/-- The name and the value of the attribute that a selector becomes. -/
def attributeOf (selector : List Char) : List Char × List Char :=
  match selector with
  | '#' :: rest =>
    if isName rest then ("id".toList, rest) else ("data-selector".toList, escape selector)
  | '.' :: rest =>
    if isName rest then ("class".toList, rest) else ("data-selector".toList, escape selector)
  | _ => ("data-selector".toList, escape selector)

/-- The element for a selector: `#id` and `.class` become one with that id or class, any other
selector is kept as data. -/
def containerElement (selector : String) : String :=
  let (name, value) := attributeOf selector.toList
  String.ofList ("<div ".toList ++ name ++ "=\"".toList ++ value ++ "\"></div>".toList)

/-- The distinct texts, in the order of their first use. -/
def distinct (texts : List String) : List String :=
  texts.foldl (fun kept s => if kept.contains s then kept else kept ++ [s]) []

/-- The layout: the loaded one, or an element for every selector. -/
def template (assets : Assets) (selectors : List String) : String :=
  match assets.layoutTemplate with
  | some template => template
  | none => "\n".intercalate ((distinct selectors).map containerElement)

end Layout

namespace Assets

/-- The style sheets: the loaded ones, or those the program imports. -/
def styleSheets (assets : Assets) (program : Program) : List String :=
  match assets.cssFiles with
  | some files => files
  | none => (program.assetImports.filter (·.kind = .styles)).map (·.path)

/-- The language in use: the loaded default unless it is empty, or the one of the settings. -/
def language (assets : Assets) (settings : Settings) : String :=
  match assets.locale with
  | some locale =>
    if locale.defaultLanguage = "" then settings.defaultLanguage else locale.defaultLanguage
  | none => settings.defaultLanguage

/-- The languages offered: the loaded ones, with the one in use in front if it is not there. -/
def availableLanguages (assets : Assets) (settings : Settings) : List Engine.LanguageLabel :=
  let code := assets.language settings
  let loaded := (assets.locale.map (·.languages)).getD []
  if loaded.any (·.code = code) then loaded else ⟨code, code⟩ :: loaded

end Assets

end Cuesheet
