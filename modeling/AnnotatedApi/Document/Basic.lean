import AnnotatedApi.Document.Method
import AnnotatedApi.Document.Schema
import AnnotatedApi.Json.Sorted

/-! The document: what it says of an interface, its servers, its paths with their operations, and its
component schemas. -/
namespace AnnotatedApi

structure Server where
  url : String
  description : Option String := none
deriving DecidableEq

/-- The server of all paths that start with `root`. -/
structure ServerOverride where
  root : String
  url : String
  description : Option String := none
deriving DecidableEq

structure Info where
  title : String := ""
  version : String := ""
  description : String := ""
  termsOfService : Option String := none
  contact : Option FreeObject := none
  license : Option FreeObject := none

structure Parameter where
  required : Bool
  description : String
  /-- Where the parameter stands: in the query, the path, a header or a cookie. -/
  location : String
  name : String
  schema : Schema

structure Content where
  description : String
  content : OrderedMap Schema

structure Operation where
  description : Option String := none
  operationId : String
  tags : Option (List String) := none
  parameters : Option (List Parameter) := none
  requestBody : Option Content := none
  /-- The responses by status. -/
  responses : Option (OrderedMap Content) := none

/-- What a path serves: at most one operation for each method. -/
structure PathItem where
  get : Option Operation := none
  put : Option Operation := none
  post : Option Operation := none
  delete : Option Operation := none
  options : Option Operation := none
  head : Option Operation := none
  patch : Option Operation := none
  trace : Option Operation := none
  /-- The servers of this path, if it does not use those of the document. -/
  servers : Option (List Server) := none

structure Document where
  openapi : String
  info : Info
  servers : List Server
  paths : OrderedMap PathItem
  schemas : OrderedMap ObjectSchema

namespace Content

def mediaType : String := "application/json"

def json (description : String) (schema : Schema) : Content :=
  ⟨description, OrderedMap.empty.insert mediaType schema⟩

end Content

namespace PathItem

instance : Inhabited PathItem := ⟨{}⟩

def operation? (item : PathItem) : Method → Option Operation
  | .get => item.get
  | .put => item.put
  | .post => item.post
  | .delete => item.delete
  | .options => item.options
  | .head => item.head
  | .patch => item.patch
  | .trace => item.trace

def setOperation (item : PathItem) (method : Method) (operation : Operation) : PathItem :=
  match method with
  | .get => { item with get := some operation }
  | .put => { item with put := some operation }
  | .post => { item with post := some operation }
  | .delete => { item with delete := some operation }
  | .options => { item with options := some operation }
  | .head => { item with head := some operation }
  | .patch => { item with patch := some operation }
  | .trace => { item with trace := some operation }

@[simp] theorem operation?_setOperation (item : PathItem) (m m' : Method) (operation : Operation) :
    (item.setOperation m operation).operation? m' =
      if m = m' then some operation else item.operation? m' := by
  cases m <;> cases m' <;> rfl

@[simp] theorem servers_setOperation (item : PathItem) (m : Method) (operation : Operation) :
    (item.setOperation m operation).servers = item.servers := by
  cases m <;> rfl

def operations (item : PathItem) : List (Method × Operation) :=
  Method.all.filterMap fun m => (item.operation? m).map (m, ·)

end PathItem

namespace Document

def operations (d : Document) : List (String × Method × Operation) :=
  d.paths.entries.flatMap fun e => e.2.operations.map (e.1, ·)

end Document

end AnnotatedApi
