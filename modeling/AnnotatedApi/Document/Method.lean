/-! The methods of HTTP that a path can serve. -/
namespace AnnotatedApi

inductive Method where
  | get | put | post | delete | options | head | patch | trace
deriving DecidableEq, Repr

namespace Method

/-- All methods, in the order in which a path lists them. -/
def all : List Method := [get, put, post, delete, options, head, patch, trace]

def key : Method → String
  | get => "get"
  | put => "put"
  | post => "post"
  | delete => "delete"
  | options => "options"
  | head => "head"
  | patch => "patch"
  | trace => "trace"

def display : Method → String
  | get => "GET"
  | put => "PUT"
  | post => "POST"
  | delete => "DELETE"
  | options => "OPTIONS"
  | head => "HEAD"
  | patch => "PATCH"
  | trace => "TRACE"

/-- The two names agree up to the case of ASCII letters. -/
def sameName (a b : List Char) : Bool := a.map Char.toLower = b.map Char.toLower

def parse? (name : String) : Option Method := all.find? fun m => sameName m.key.toList name.toList

end Method

end AnnotatedApi
