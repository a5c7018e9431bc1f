import AnnotatedApi.Catalogue
import AnnotatedApi.Settings
import AnnotatedApi.Yaml.Writer

/-! Building a document from annotated text, and the formats in which it is written. -/
namespace AnnotatedApi

namespace Settings

def hasServers (s : Settings) : Bool :=
  !(s.config.servers.getD []).isEmpty || !(s.options.servers.getD []).isEmpty

end Settings

namespace Document

def formatVersion : String := "3.0.2"

/-- The document of a catalogue. Texts that the settings do not give are empty. -/
def assemble (settings : Settings) (c : Catalogue) : Document where
  openapi := formatVersion
  info := {
    title := settings.config.title.getD ""
    version := settings.config.version.getD ""
    description := settings.config.description.getD ""
    termsOfService := settings.options.termsOfService
    contact := settings.options.contact
    license := settings.options.license }
  servers := settings.config.servers.getD []
  paths := applyOverrides (settings.options.servers.getD []) c.paths
  schemas := c.schemas

def ofBlocks (settings : Settings) (blocks : List Block) :
    Except Error (Document × List Warning) := do
  let (catalogue, warnings) ← Catalogue.ofBlocks blocks
  let document ← (assemble settings catalogue).validate.mapError .invalid
  return (document, warnings)

/-- The document of an annotated text. That a server is given is checked before the text is read. -/
def build (settings : Settings) (text : String) : Except Error (Document × List Warning) :=
  if settings.hasServers then do
    let annotations := Annotations.parse text
    let (document, warnings) ← ofBlocks settings annotations.blocks
    return (document, annotations.warnings ++ warnings)
  else .error .missingServers

end Document

inductive Format where
  | json
  | yaml
deriving DecidableEq

def Format.ofName? : String → Option Format
  | "json" => some .json
  | "yaml" => some .yaml
  | _ => none

def Format.display : Format → String
  | .json => "JSON"
  | .yaml => "YAML"

/-- The text of a document. YAML ends with a line end, JSON does not. -/
def Document.render (d : Document) : Format → String
  | .json => d.toJsonText
  | .yaml => Yaml.render d.toJson

end AnnotatedApi
