import AnnotatedApi.Document.Basic

/-! The document as a JSON value, and back. -/
namespace AnnotatedApi

variable {σ : Type} [Source σ]

namespace Server

def toJson (s : Server) : Json :=
  .ofMembers [("url", some (.str s.url)), ("description", s.description.map .str)]

def decode (v : σ) : Option Server := do
  let r ← Source.record? v
  r.atMost 2
  return {
    url := ← r.required 0 "url" Source.text?
    description := ← r.orElse 1 "description" none (Source.optional? Source.text?) }

end Server

namespace ServerOverride

def toJson (s : ServerOverride) : Json :=
  .ofMembers [
    ("root", some (.str s.root)),
    ("url", some (.str s.url)),
    ("description", s.description.map .str)]

def decode (v : σ) : Option ServerOverride := do
  let r ← Source.record? v
  r.atMost 3
  return {
    root := ← r.required 0 "root" Source.text?
    url := ← r.required 1 "url" Source.text?
    description := ← r.orElse 2 "description" none (Source.optional? Source.text?) }

end ServerOverride

namespace Info

def toJson (i : Info) : Json :=
  .ofMembers [
    ("title", some (.str i.title)),
    ("version", some (.str i.version)),
    ("description", some (.str i.description)),
    ("termsOfService", i.termsOfService.map .str),
    ("contact", i.contact.map (·.toJson)),
    ("license", i.license.map (·.toJson))]

def decode (v : σ) : Option Info := do
  let r ← Source.record? v
  r.atMost 6
  return {
    title := ← r.required 0 "title" Source.text?
    version := ← r.required 1 "version" Source.text?
    description := ← r.required 2 "description" Source.text?
    termsOfService := ← r.optional 3 "termsOfService" Source.text?
    contact := ← r.optional 4 "contact" FreeObject.decode
    license := ← r.optional 5 "license" FreeObject.decode }

end Info

namespace Parameter

def toJson (p : Parameter) : Json :=
  .obj [
    ("required", .bool p.required),
    ("description", .str p.description),
    ("in", .str p.location),
    ("name", .str p.name),
    ("schema", p.schema.toJson)]

def decode (v : σ) : Option Parameter := do
  let r ← Source.record? v
  r.atMost 5
  return {
    required := ← r.required 0 "required" Source.flag?
    description := ← r.required 1 "description" Source.text?
    location := ← r.required 2 "in" Source.text?
    name := ← r.required 3 "name" Source.text?
    schema := ← r.required 4 "schema" Schema.decode }

end Parameter

namespace Content

def mediaToJson (schema : Schema) : Json := .obj [("schema", schema.toJson)]

def decodeMedia (v : σ) : Option Schema := do
  let r ← Source.record? v
  r.atMost 1
  r.required 0 "schema" Schema.decode

def toJson (c : Content) : Json :=
  .obj [("description", .str c.description), ("content", c.content.toJson mediaToJson)]

def decode (v : σ) : Option Content := do
  let r ← Source.record? v
  r.atMost 2
  return {
    description := ← r.required 0 "description" Source.text?
    content := ← r.required 1 "content" (OrderedMap.decode decodeMedia) }

end Content

namespace Operation

def toJson (o : Operation) : Json :=
  .ofMembers [
    ("description", o.description.map .str),
    ("operationId", some (.str o.operationId)),
    ("tags", o.tags.map fun ts => .arr (ts.map .str)),
    ("parameters", o.parameters.map fun ps => .arr (ps.map (·.toJson))),
    ("requestBody", o.requestBody.map (·.toJson)),
    ("responses", o.responses.map (·.toJson Content.toJson))]

def decode (v : σ) : Option Operation := do
  let r ← Source.record? v
  r.atMost 6
  return {
    description := ← r.optional 0 "description" Source.text?
    operationId := ← r.required 1 "operationId" Source.text?
    tags := ← r.optional 2 "tags" Source.texts?
    parameters := ← r.optional 3 "parameters" (Source.list? Parameter.decode)
    requestBody := ← r.optional 4 "requestBody" Content.decode
    responses := ← r.optional 5 "responses" (OrderedMap.decode Content.decode) }

end Operation

namespace PathItem

def toJson (item : PathItem) : Json :=
  .ofMembers [
    ("get", item.get.map (·.toJson)),
    ("put", item.put.map (·.toJson)),
    ("post", item.post.map (·.toJson)),
    ("delete", item.delete.map (·.toJson)),
    ("options", item.options.map (·.toJson)),
    ("head", item.head.map (·.toJson)),
    ("patch", item.patch.map (·.toJson)),
    ("trace", item.trace.map (·.toJson)),
    ("servers", item.servers.map fun ss => .arr (ss.map (·.toJson)))]

def decode (v : σ) : Option PathItem := do
  let r ← Source.record? v
  r.atMost 9
  return {
    get := ← r.optional 0 "get" Operation.decode
    put := ← r.optional 1 "put" Operation.decode
    post := ← r.optional 2 "post" Operation.decode
    delete := ← r.optional 3 "delete" Operation.decode
    options := ← r.optional 4 "options" Operation.decode
    head := ← r.optional 5 "head" Operation.decode
    patch := ← r.optional 6 "patch" Operation.decode
    trace := ← r.optional 7 "trace" Operation.decode
    servers := ← r.optional 8 "servers" (Source.list? Server.decode) }

end PathItem

namespace Document

def componentsToJson (schemas : OrderedMap ObjectSchema) : Json :=
  .obj [("schemas", schemas.toJson ObjectSchema.toJson)]

def decodeComponents (v : σ) : Option (OrderedMap ObjectSchema) := do
  let r ← Source.record? v
  r.atMost 1
  r.required 0 "schemas" (OrderedMap.decode ObjectSchema.decode)

def toJson (d : Document) : Json :=
  .obj [
    ("openapi", .str d.openapi),
    ("info", d.info.toJson),
    ("servers", .arr (d.servers.map (·.toJson))),
    ("paths", d.paths.toJson PathItem.toJson),
    ("components", componentsToJson d.schemas)]

def decode (v : σ) : Option Document := do
  let r ← Source.record? v
  r.atMost 5
  return {
    openapi := ← r.required 0 "openapi" Source.text?
    info := ← r.required 1 "info" Info.decode
    servers := ← r.required 2 "servers" (Source.list? Server.decode)
    paths := ← r.required 3 "paths" (OrderedMap.decode PathItem.decode)
    schemas := ← r.required 4 "components" decodeComponents }

def toJsonText (d : Document) : String := d.toJson.render Json.pretty

def ofJsonText? (text : String) : Option Document := do decode (← Json.read? text)

end Document

end AnnotatedApi
