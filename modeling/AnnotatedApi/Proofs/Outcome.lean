import Mathlib.Data.List.Forall2

/-! Computations that may fail: what a result says of the steps that lead to it. -/
namespace AnnotatedApi.Outcome

variable {ε α β : Type}

theorem bind_eq_ok {x : Except ε α} {f : α → Except ε β} {r : β} :
    x >>= f = .ok r ↔ ∃ a, x = .ok a ∧ f a = .ok r := by
  cases x with
  | error e => simp [bind, Except.bind]
  | ok a => simp [bind, Except.bind]

theorem bind_eq_error {x : Except ε α} {f : α → Except ε β} {e : ε} :
    x >>= f = .error e ↔ x = .error e ∨ ∃ a, x = .ok a ∧ f a = .error e := by
  cases x with
  | error e' => simp [bind, Except.bind]
  | ok a => simp [bind, Except.bind]

theorem map_eq_ok {x : Except ε α} {f : α → β} {b : β} :
    x.map f = .ok b ↔ ∃ a, x = .ok a ∧ f a = b := by
  cases x <;> simp [Except.map]

theorem map_eq_error {x : Except ε α} {f : α → β} {e : ε} : x.map f = .error e ↔ x = .error e := by
  cases x <;> simp [Except.map]

theorem pure_eq_ok {a b : α} : (pure a : Except ε α) = .ok b ↔ a = b := by
  simp [pure, Except.pure]

theorem mapError_eq_ok {ε' : Type} {f : ε → ε'} {x : Except ε α} {a : α} :
    x.mapError f = .ok a ↔ x = .ok a := by
  cases x <;> simp [Except.mapError]

theorem toOption_eq_some {x : Except ε α} {a : α} : x.toOption = some a ↔ x = .ok a := by
  cases x <;> simp [Except.toOption]

/-- A computation whose results and errors are both described, if one or the other is always there. -/
theorem eq_iff_of_or {x : Except ε α} {result : α → Prop} {fault : ε → Prop}
    (hok : ∀ a, result a → x = .ok a) (herror : ∀ e, fault e → x = .error e)
    (h : (∃ a, result a) ∨ ∃ e, fault e) :
    (∀ a, x = .ok a ↔ result a) ∧ ∀ e, x = .error e ↔ fault e := by
  rcases h with ⟨a, ha⟩ | ⟨e, he⟩
  · cases hok a ha
    refine ⟨fun b => ⟨?_, hok b⟩, fun e => ⟨nofun, herror e⟩⟩
    rintro ⟨⟩
    exact ha
  · cases herror e he
    refine ⟨fun a => ⟨nofun, hok a⟩, fun e => ⟨?_, herror e⟩⟩
    rintro ⟨⟩
    exact he

/-- A computation is settled by conditions under which it succeeds and faults with which it fails, if one
or the other is always there. -/
theorem settled_of_or {x : Except ε α} {condition : Prop} {describes : α → Prop} {fault : ε → Prop}
    (hok : condition → ∃ a, x = .ok a ∧ describes a) (herror : ∀ e, fault e → x = .error e)
    (h : condition ∨ ∃ e, fault e) :
    ((∃ a, x = .ok a) ↔ condition) ∧ (∀ a, x = .ok a → describes a) ∧
      ∀ e, x = .error e ↔ fault e := by
  rcases h with h | ⟨e, he⟩
  · obtain ⟨a, rfl, ha⟩ := hok h
    refine ⟨⟨fun _ => h, fun _ => ⟨a, rfl⟩⟩, ?_, fun e => ⟨nofun, herror e⟩⟩
    rintro _ ⟨⟩
    exact ha
  · cases herror e he
    refine ⟨⟨nofun, ?_⟩, nofun, fun e' => ⟨?_, herror e'⟩⟩
    · intro h
      obtain ⟨_, ⟨⟩, -⟩ := hok h
    · rintro ⟨⟩
      exact he

theorem forall₂_of_mapM_eq_ok {f : α → Except ε β} {xs : List α} {ys : List β}
    (h : xs.mapM f = .ok ys) : List.Forall₂ (fun x y => f x = .ok y) xs ys := by
  induction xs generalizing ys with
  | nil =>
    rw [List.mapM_nil, pure_eq_ok] at h
    subst h
    exact .nil
  | cons x xs ih =>
    rw [List.mapM_cons, bind_eq_ok] at h
    obtain ⟨y, hy, h⟩ := h
    obtain ⟨ys', hys, h⟩ := bind_eq_ok.1 h
    cases pure_eq_ok.1 h
    exact .cons hy (ih hys)

theorem mapM_eq_ok_of_forall₂ {f : α → Except ε β} {xs : List α} {ys : List β}
    (h : List.Forall₂ (fun x y => f x = .ok y) xs ys) : xs.mapM f = .ok ys := by
  induction h with
  | nil => rfl
  | cons hy _ ih =>
    rw [List.mapM_cons, hy, ih]
    rfl

theorem exists_of_mapM_eq_error {f : α → Except ε β} {xs : List α} {e : ε}
    (h : xs.mapM f = .error e) :
    ∃ before x after, xs = before ++ x :: after ∧ (∀ y ∈ before, ∃ r, f y = .ok r) ∧
      f x = .error e := by
  induction xs with
  | nil => cases h
  | cons x xs ih =>
    rw [List.mapM_cons] at h
    cases hx : f x with
    | error e' =>
      rw [hx] at h
      cases h
      exact ⟨[], x, xs, rfl, List.forall_mem_nil _, hx⟩
    | ok y =>
      rw [hx] at h
      have htail : xs.mapM f = .error e := by
        cases hxs : xs.mapM f with
        | error e' =>
          rw [hxs] at h
          cases h
          rfl
        | ok ys =>
          rw [hxs] at h
          cases h
      obtain ⟨before, x', after, rfl, hbefore, hx'⟩ := ih htail
      exact ⟨x :: before, x', after, rfl, List.forall_mem_cons.2 ⟨⟨y, hx⟩, hbefore⟩, hx'⟩

theorem mapM_append_cons_eq_error {f : α → Except ε β} {before after : List α} {x : α} {e : ε}
    (hbefore : ∀ y ∈ before, ∃ r, f y = .ok r) (hx : f x = .error e) :
    (before ++ x :: after).mapM f = .error e := by
  induction before with
  | nil =>
    rw [List.nil_append, List.mapM_cons, hx]
    rfl
  | cons y before ih =>
    obtain ⟨⟨r, hr⟩, hbefore⟩ := List.forall_mem_cons.1 hbefore
    rw [List.cons_append, List.mapM_cons, hr, ih hbefore]
    rfl

/-- `e` is the error of the first element at which a step fails. -/
def FirstError (f : α → Except ε β) (xs : List α) (e : ε) : Prop :=
  ∃ before x after, xs = before ++ x :: after ∧ (∀ y ∈ before, ∃ r, f y = .ok r) ∧ f x = .error e

theorem mapM_eq_error_iff {f : α → Except ε β} {xs : List α} {e : ε} :
    xs.mapM f = .error e ↔ FirstError f xs e := by
  refine ⟨exists_of_mapM_eq_error, ?_⟩
  rintro ⟨before, x, after, rfl, hbefore, hx⟩
  exact mapM_append_cons_eq_error hbefore hx

/-- What is made of the results has no part in the errors. -/
theorem firstError_map_iff {γ : Type} {f : α → Except ε β} {g : α → β → γ} {xs : List α} {e : ε} :
    FirstError (fun x => (f x).map (g x)) xs e ↔ FirstError f xs e := by
  have hok : ∀ x, (∃ r, (f x).map (g x) = .ok r) ↔ ∃ r, f x = .ok r := by
    intro x
    cases f x <;> simp [Except.map]
  simp only [FirstError, map_eq_error, hok]

theorem exists_mapM_eq_ok {f : α → Except ε β} {xs : List α} (h : ∀ x ∈ xs, ∃ y, f x = .ok y) :
    ∃ ys, xs.mapM f = .ok ys := by
  cases hxs : xs.mapM f with
  | ok ys => exact ⟨ys, rfl⟩
  | error e =>
    obtain ⟨before, x, after, rfl, -, hx⟩ := exists_of_mapM_eq_error hxs
    obtain ⟨y, hy⟩ := h x (by simp)
    rw [hx] at hy
    cases hy

theorem exists_of_forall₂ {R : α → β → Prop} {xs : List α} {ys : List β} (h : List.Forall₂ R xs ys)
    {y : β} (hy : y ∈ ys) : ∃ x ∈ xs, R x y := by
  induction h with
  | nil => exact absurd hy List.not_mem_nil
  | cons hx _ ih =>
    rcases List.mem_cons.1 hy with rfl | hy
    · exact ⟨_, List.mem_cons_self, hx⟩
    · obtain ⟨x, hmem, hx⟩ := ih hy
      exact ⟨x, List.mem_cons_of_mem _ hmem, hx⟩

theorem exists_of_mapM_eq_ok {f : α → Except ε β} {xs : List α} {ys : List β}
    (h : xs.mapM f = .ok ys) {y : β} (hy : y ∈ ys) : ∃ x ∈ xs, f x = .ok y :=
  exists_of_forall₂ (forall₂_of_mapM_eq_ok h) hy

theorem exists_result_of_mapM_eq_ok {f : α → Except ε β} {xs : List α} {ys : List β}
    (h : xs.mapM f = .ok ys) {x : α} (hx : x ∈ xs) : ∃ y ∈ ys, f x = .ok y :=
  exists_of_forall₂ (forall₂_of_mapM_eq_ok h).flip hx

theorem exists_of_option_mapM_eq_ok {f : α → Except ε β} {o : Option α} {r : Option β}
    (h : o.mapM f = .ok r) {y : β} (hy : y ∈ r) : ∃ x ∈ o, f x = .ok y := by
  cases o with
  | none =>
    cases pure_eq_ok.1 h
    cases hy
  | some x =>
    rw [Option.mapM_some] at h
    cases hx : f x with
    | error e =>
      rw [hx] at h
      cases h
    | ok y' =>
      rw [hx] at h
      cases h
      cases hy
      exact ⟨x, rfl, hx⟩

theorem exists_option_mapM_eq_ok {f : α → Except ε β} {o : Option α} (h : ∀ x ∈ o, ∃ y, f x = .ok y) :
    ∃ r, o.mapM f = .ok r ∧ Option.Rel (fun x y => f x = .ok y) o r := by
  cases o with
  | none => exact ⟨none, rfl, .none⟩
  | some x =>
    obtain ⟨y, hy⟩ := h x rfl
    refine ⟨some y, ?_, .some hy⟩
    rw [Option.mapM_some, hy]
    rfl

end AnnotatedApi.Outcome
