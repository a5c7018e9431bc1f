import AnnotatedApi.Document.Codec

/-! Settings: what a caller says of the document beside the annotations. -/
namespace AnnotatedApi

structure Config where
  title : Option String := none
  version : Option String := none
  description : Option String := none
  servers : Option (List Server) := none

structure Options where
  /-- Servers for some of the paths, in order of priority. -/
  servers : Option (List ServerOverride) := none
  termsOfService : Option String := none
  contact : Option FreeObject := none
  license : Option FreeObject := none

structure Settings where
  config : Config := {}
  options : Options := {}

variable {σ : Type} [Source σ]

namespace Config

def decode (v : σ) : Option Config := do
  let r ← Source.record? v
  r.atMost 4
  return {
    title := ← r.optional 0 "title" Source.text?
    version := ← r.optional 1 "version" Source.text?
    description := ← r.optional 2 "description" Source.text?
    servers := ← r.optional 3 "servers" (Source.list? Server.decode) }

/-- All fields, with null for what is missing. -/
def toJson (c : Config) : Json :=
  .obj [
    ("title", (c.title.map .str).getD .null),
    ("version", (c.version.map .str).getD .null),
    ("description", (c.description.map .str).getD .null),
    ("servers", (c.servers.map fun ss => .arr (ss.map (·.toJson))).getD .null)]

end Config

namespace Options

def decode (v : σ) : Option Options := do
  let r ← Source.record? v
  r.atMost 4
  return {
    servers := ← r.optional 0 "servers" (Source.list? ServerOverride.decode)
    termsOfService := ← r.optional 1 "termsOfService" Source.text?
    contact := ← r.optional 2 "contact" FreeObject.decode
    license := ← r.optional 3 "license" FreeObject.decode }

def toJson (o : Options) : Json :=
  .obj [
    ("servers", (o.servers.map fun ss => .arr (ss.map (·.toJson))).getD .null),
    ("termsOfService", (o.termsOfService.map .str).getD .null),
    ("contact", (o.contact.map (·.toJson)).getD .null),
    ("license", (o.license.map (·.toJson)).getD .null)]

end Options

namespace Settings

def decode (v : σ) : Option Settings := do
  let r ← Source.record? v
  r.atMost 2
  return {
    config := ← r.orElse 0 "config" {} Config.decode
    options := ← r.orElse 1 "options" {} Options.decode }

def toJson (s : Settings) : Json :=
  .obj [("config", s.config.toJson), ("options", s.options.toJson)]

end Settings

end AnnotatedApi
