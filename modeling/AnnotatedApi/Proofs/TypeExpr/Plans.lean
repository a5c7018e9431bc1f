import AnnotatedApi.Proofs.TypeExpr.Reading

/-! The steps of reading a type expression as plans that name the calls of other steps. A plan can be
carried out with any answers to its calls, and its calls can be listed. Main statement: with the answers of
the steps themselves, each step does what its plan says. -/
namespace AnnotatedApi.TypeExpr

open Text

/-- The steps that call each other, and the loop over the `[]` behind a type. -/
inductive Step where
  | alternation
  | alternatives
  | suffixed
  | arrays (t : TypeExpr)
  | marked
  | atom
  | arguments

abbrev Step.Value : Step → Type
  | alternatives | arguments => List TypeExpr
  | alternation | suffixed | arrays _ | marked | atom => TypeExpr

/-- What a step does: it ends, or it calls a step on a text and goes on with what that one gives and
leaves. A fault of the called step is passed on. -/
inductive Plan (α : Type) where
  | done (a : α) (rest : List Char)
  | fail (f : Fault)
  | call (g : Step) (s : List Char) (next : g.Value → List Char → Plan α)

def Plan.close {α : Type} (c : Char) (a : α) (s : List Char) : Plan α :=
  match expect c s with
  | .ok r => done a r.1
  | .error f => fail f

/-- The plan of each step on a text. -/
def plan : (g : Step) → List Char → Plan g.Value
  | .alternation, s =>
    .call .suffixed s fun t r => .call .alternatives r fun ts r' => .done (ofAlternatives t ts) r'
  | .alternatives, s =>
    match eat? '|' s with
    | some r => .call .suffixed r.1 fun t r₁ => .call .alternatives r₁ fun ts r₂ => .done (t :: ts) r₂
    | none => .done [] s
  | .suffixed, s =>
    .call .marked s fun t r => .call (.arrays t) r fun t₁ r₁ => .done (mark t₁ r₁).1 (mark t₁ r₁).2.1
  | .arrays t, s =>
    match brackets? s with
    | some r => .call (.arrays (arrayOf t)) r.1 .done
    | none => .done t s
  | .marked, s =>
    match eat? '?' s, eat? '!' s with
    | some r, _ => .call .suffixed r.1 fun t r₁ => .done (nullable t) r₁
    | none, some r => .call .suffixed r.1 fun t r₁ => .done (nonNullable t) r₁
    | none, none => .call .atom s .done
  | .atom, s =>
    match token? s with
    | none => .fail (.unexpected [])
    | some (c, r) =>
      if c = '(' then .call .alternation r.1 (.close ')')
      else if c = '*' then .done any r.1
      else if isNameStart c then
        let n := name (String.ofList (c :: (nameTail r.1).1))
        match opening? (nameTail r.1).2.1 with
        | some r₁ => .call .arguments r₁.1 fun ts r₂ => .done (apply n ts) r₂
        | none => .done n (nameTail r.1).2.1
      else .fail (.unexpected (c :: r.1))
  | .arguments, s =>
    .call .alternation s fun t r =>
      match eat? ',' r with
      | some r₁ => .call .arguments r₁.1 fun ts r₂ => .done (t :: ts) r₂
      | none => .close '>' [t] r

/-- What the steps answer. A step that has not come to its end answers nothing. -/
abbrev Answers := (g : Step) → List Char → Option (Except Fault (g.Value × List Char))

structure Call where
  step : Step
  text : List Char

namespace Plan

variable {α : Type}

def run (answers : Answers) : Plan α → Option (Except Fault (α × List Char))
  | done a r => some (.ok (a, r))
  | fail f => some (.error f)
  | call g s next =>
    match answers g s with
    | none => none
    | some (.error f) => some (.error f)
    | some (.ok (a, r)) => (next a r).run answers

def calls (answers : Answers) : Plan α → List Call
  | done _ _ => []
  | fail _ => []
  | call g s next =>
    ⟨g, s⟩ ::
      match answers g s with
      | some (.ok (a, r)) => (next a r).calls answers
      | _ => []

section

variable {answers : Answers} {P : Call → Prop} {g : Step} {s : List Char}
  {next : g.Value → List Char → Plan α}

/-- A fact about all calls is one about the first, and about those that are made with its result. -/
theorem forall_calls_call :
    (∀ c ∈ (call g s next).calls answers, P c) ↔ P ⟨g, s⟩ ∧
      ∀ a r, answers g s = some (.ok (a, r)) → ∀ c ∈ (next a r).calls answers, P c := by
  rw [calls, List.forall_mem_cons]
  refine and_congr_right fun _ => ?_
  cases answers g s with
  | none => simp
  | some x =>
    cases x with
    | error f => simp
    | ok p =>
      constructor
      · rintro h a r ⟨⟩
        exact h
      · intro h
        exact h p.1 p.2 rfl

theorem forall_calls_last (h : P ⟨g, s⟩) (hnext : ∀ a r, (next a r).calls answers = []) :
    ∀ c ∈ (call g s next).calls answers, P c := by
  refine forall_calls_call.2 ⟨h, fun a r _ => ?_⟩
  rw [hnext]
  exact List.forall_mem_nil P

theorem calls_close {c : Char} {a : α} {s : List Char} : (close c a s).calls answers = [] := by
  rw [close]
  cases expect c s with
  | error f => rfl
  | ok r => rfl

end

/-- Only the answers to its calls have a part in a plan. -/
theorem run_congr {answers answers' : Answers} (x : Plan α)
    (h : ∀ c ∈ x.calls answers, answers' c.step c.text = answers c.step c.text) :
    x.run answers' = x.run answers := by
  induction x with
  | done a r => rfl
  | fail f => rfl
  | call g s next ih =>
    obtain ⟨hcall, hnext⟩ := forall_calls_call.1 h
    rw [run, run, hcall]
    cases ha : answers g s with
    | none => rfl
    | some x =>
      cases x with
      | error f => rfl
      | ok p => exact ih p.1 p.2 (hnext p.1 p.2 ha)

end Plan

def plain {α : Type} {P : List Char → Prop} (x : Except Fault (α × { r : List Char // P r })) :
    Except Fault (α × List Char) :=
  x.map fun p => (p.1, p.2.1)

theorem plain_eq_ok_iff {α : Type} {P : List Char → Prop}
    {x : Except Fault (α × { r : List Char // P r })} {a : α} {r : List Char} :
    plain x = .ok (a, r) ↔ Reads x a r := by
  cases x with
  | error f => simp [plain, Except.map, Reads]
  | ok p =>
    constructor
    · rintro ⟨⟩
      exact ⟨p.2.2, rfl⟩
    · rintro ⟨_, ⟨⟩⟩
      rfl

/-- What each step reads from a text. -/
def read : (g : Step) → List Char → Except Fault (g.Value × List Char)
  | .alternation, s => plain (alternation s)
  | .alternatives, s => plain (alternatives s)
  | .suffixed, s => plain (suffixed s)
  | .arrays t, s => .ok ((arrays t s).1, (arrays t s).2.1)
  | .marked, s => plain (marked s)
  | .atom, s => plain (atom s)
  | .arguments, s => plain (arguments s)

def readings : Answers := fun g s => some (read g s)

private theorem run_call_done (g : Step) (s : List Char) :
    (Plan.call g s .done).run readings = some (read g s) := by
  rw [Plan.run, readings]
  cases read g s with
  | error f => rfl
  | ok p => rfl

section

variable {α : Type} {P Q : List Char → Prop}

theorem run_call {g : Step} {s : List Char} {next : g.Value → List Char → Plan α}
    {x : Except Fault (g.Value × { r : List Char // P r })}
    {f : g.Value × { r : List Char // P r } → Except Fault (α × { r : List Char // Q r })}
    (hx : read g s = plain x)
    (hf : ∀ a r h, (next a r).run readings = some (plain (f (a, ⟨r, h⟩)))) :
    (Plan.call g s next).run readings = some (plain (x >>= f)) := by
  rw [Plan.run, readings, hx]
  cases x with
  | error e => rfl
  | ok p => exact hf p.1 p.2.1 p.2.2

theorem run_close {c : Char} {a : α} {s : List Char} {h : ∀ r : After s, Q r.1} :
    (Plan.close c a s).run readings =
      some (plain (expect c s >>= fun r => pure (a, (⟨r.1, h r⟩ : { r : List Char // Q r })))) := by
  rw [Plan.close]
  cases expect c s with
  | error f => rfl
  | ok r => rfl

end

theorem run_plan_atom (s : List Char) : (plan .atom s).run readings = some (read .atom s) := by
  rw [read, atom, plan]
  cases token? s with
  | none => rfl
  | some p =>
    dsimp only
    split
    next => exact run_call rfl fun t r h => run_close
    next =>
      split
      next => rfl
      next =>
        split
        next =>
          cases opening? (nameTail p.2.1).2.1 with
          | some r₁ => exact run_call rfl fun ts r₂ h₂ => rfl
          | none => rfl
        next => rfl

/-- The steps carry out their plans. -/
theorem run_plan (g : Step) (s : List Char) : (plan g s).run readings = some (read g s) := by
  cases g with
  | alternation =>
    rw [read, alternation]
    exact run_call rfl fun t r h => run_call rfl fun ts r' h' => rfl
  | alternatives =>
    rw [read, alternatives, plan]
    cases eat? '|' s with
    | some r => exact run_call rfl fun t r₁ h₁ => run_call rfl fun ts r₂ h₂ => rfl
    | none => rfl
  | suffixed =>
    rw [read, suffixed]
    exact run_call rfl fun t r h => rfl
  | arrays t =>
    rw [read, arrays, plan]
    cases brackets? s with
    | some r => rfl
    | none => rfl
  | marked =>
    rw [read, marked, plan]
    cases eat? '?' s with
    | some r => exact run_call rfl fun t r₁ h₁ => rfl
    | none =>
      cases eat? '!' s with
      | some r => exact run_call rfl fun t r₁ h₁ => rfl
      | none => exact run_call_done .atom s
  | atom => exact run_plan_atom s
  | arguments =>
    rw [read, arguments]
    refine run_call rfl fun t r h => ?_
    dsimp only
    cases eat? ',' r with
    | some r₁ => exact run_call rfl fun ts r₂ h₂ => rfl
    | none => exact run_close

end AnnotatedApi.TypeExpr
