import AnnotatedApi.Yaml.Style

/-! How the lines of one scalar are joined: blanks around a line end are lost, a single line feed is a
space, and of several the first one is lost. -/
namespace AnnotatedApi.Yaml

def isWhite (c : Char) : Bool := c = ' ' || c = '\t'

inductive Piece where
  | written (c : Char)
  /-- What an escape stands for. It is never taken for a blank or a break. -/
  | meant (c : Char)
  /-- A line end that is escaped: the next line goes on from here. -/
  | joint

inductive Gap where
  | blanks (cs : List Char)
  /-- The first break, unless it is escaped, and the further ones. -/
  | breaks (first further : List Char)

namespace Gap

def none : Gap := blanks []

/-- One more blank or break as written; next to a break blanks do not count. -/
def push (c : Char) : Gap → Gap
  | blanks cs => if isBreak c then breaks [c] [] else blanks (cs ++ [c])
  | breaks first further => breaks first (if isBreak c then further ++ [c] else further)

def text : Gap → List Char
  | blanks cs => cs
  | breaks first further =>
    if first = ['\n'] then
      if further.isEmpty then [' '] else further
    else first ++ further

end Gap

def fold : Gap → List Piece → List Char
  | gap, [] => gap.text
  | gap, p :: ps =>
    match p with
    | .written c =>
      if isWhite c || isBreak c then fold (gap.push c) ps else gap.text ++ c :: fold .none ps
    | .meant c => gap.text ++ c :: fold .none ps
    | .joint => gap.text ++ fold (.breaks [] []) ps

theorem fold_written {cs : List Char} (h : ∀ c ∈ cs, isBreak c = false) (before : List Char) :
    fold (.blanks before) (cs.map .written) = before ++ cs := by
  induction cs generalizing before with
  | nil => simp [fold, Gap.text]
  | cons c cs ih =>
    have hc := h c List.mem_cons_self
    have ih := ih fun d hd => h d (List.mem_cons_of_mem c hd)
    by_cases hw : isWhite c <;> simp [fold, Gap.push, Gap.text, Gap.none, hw, hc, ih]

def folded (ps : List Piece) : String := String.ofList (fold .none ps)

end AnnotatedApi.Yaml
