import AnnotatedApi.Proofs.TypeExpr.Stopping

/-! How far ahead reading looks. Two texts fork where they go on differently behind a sign and at most one
more common character. Main statement: on both texts every step does the same, unless it reads past the
sign, because no decision looks further than the character behind the next token. -/
namespace AnnotatedApi.TypeExpr

open Text Grammar Outcome

def Fault.withRest : Fault → List Char → Fault
  | unexpected _, rest => unexpected rest
  | missing wanted _, rest => missing wanted rest

theorem suffix_of_trimStart {s o l : List Char} (h : trimStart s = o ++ l) : l <:+ s :=
  (List.suffix_append o l).trans (h ▸ trimStart_suffix s)

structure Within {α : Type} {P : List Char → Prop} (s : List Char)
    (x : Except Fault (α × { r : List Char // P r })) : Prop where
  reads : ∀ {a l}, Reads x a l → l <:+ s
  fails : ∀ {f}, x = .error f → f.rest <:+ s

section

variable {α β : Type} {P Q : List Char → Prop} {x : Except Fault (α × { r : List Char // P r })}
  {s : List Char}

theorem Within.trans {s' : List Char} (h : Within s x) (hs : s <:+ s') : Within s' x :=
  ⟨fun hx => (h.reads hx).trans hs, fun hx => (h.fails hx).trans hs⟩

theorem Within.bind {g : α × { r : List Char // P r } → Except Fault (β × { r : List Char // Q r })}
    (hx : Within s x) (hg : ∀ a l h, Within l (g (a, ⟨l, h⟩))) : Within s (x >>= g) := by
  constructor
  · intro b l h
    obtain ⟨a, l₀, h₀, hl₀, h⟩ := reads_bind.1 h
    exact ((hg a l₀ h₀).reads h).trans (hx.reads ⟨h₀, hl₀⟩)
  · intro f h
    rcases bind_eq_error.1 h with h | ⟨⟨a, l₀, h₀⟩, hl₀, h⟩
    · exact hx.fails h
    · exact ((hg a l₀ h₀).fails h).trans (hx.reads ⟨h₀, hl₀⟩)

theorem within_pure {a : α} {l : List Char} {h : P l} (hl : l <:+ s) :
    Within s (pure (a, ⟨l, h⟩) : Except Fault (α × { r : List Char // P r })) := by
  constructor
  · intro b l' h'
    obtain ⟨-, rfl⟩ := reads_pure.1 h'
    exact hl
  · rintro f ⟨⟩

theorem Within.map {f : α → β} {g : ∀ r, P r → Q r} (hx : Within s x) :
    Within s (x >>= fun p => pure (f p.1, (⟨p.2.1, g p.2.1 p.2.2⟩ : { r : List Char // Q r }))) :=
  hx.bind fun _ r _ => within_pure (List.suffix_refl r)

theorem within_expect_bind {c : Char} {g : After s → Except Fault (β × { r : List Char // Q r })}
    (hg : ∀ l h, Within l (g ⟨l, h⟩)) : Within s (expect c s >>= g) := by
  constructor
  · intro b l h
    obtain ⟨l₀, h₀, h⟩ := reads_expect_bind.1 h
    exact ((hg l₀ _).reads h).trans (suffix_of_trimStart (o := [c]) h₀)
  · intro f h
    rcases bind_eq_error.1 h with h | ⟨⟨l₀, h₀⟩, hl₀, h⟩
    · rw [eq_missing_of_expect_eq_error h]
      exact trimStart_suffix s
    · exact ((hg l₀ h₀).fails h).trans (suffix_of_trimStart (o := [c]) (expect_eq_ok_iff.1 hl₀))

end

theorem StopsAt.suffix {phrase : List Char → Prop} {s rest : List Char} (h : StopsAt phrase s rest) :
    rest <:+ s := by
  obtain ⟨u, hu, -⟩ := h
  exact ⟨u, hu.symm⟩

theorem within_alternation (s : List Char) : Within s (alternation s) := by
  refine ⟨fun h => ?_, fun h => ((stopped s).alternation h).suffix⟩
  obtain ⟨u, hu, -⟩ := (derived s).alternation h
  exact ⟨u, hu.symm⟩

theorem within_alternatives (s : List Char) : Within s (alternatives s) := by
  refine ⟨fun h => ?_, fun h => ((stopped s).alternatives h).suffix⟩
  obtain ⟨u, hu, -⟩ := (derived s).alternatives h
  exact ⟨u, hu.symm⟩

theorem within_suffixed (s : List Char) : Within s (suffixed s) := by
  refine ⟨fun h => ?_, fun h => ((stopped s).suffixed h).suffix⟩
  obtain ⟨u, full, hu, -⟩ := (derived s).suffixed h
  exact ⟨u, hu.symm⟩

theorem within_arguments (s : List Char) : Within s (arguments s) := by
  refine ⟨fun h => ?_, fun h => ((stopped s).arguments h).suffix⟩
  obtain ⟨u, hu, -⟩ := (derived s).arguments h
  exact ⟨u, hu.symm⟩

theorem nameTail_suffix (s : List Char) : (nameTail s).2.1 <:+ s :=
  ⟨(nameTail s).1, (nameTail_derives s).2.symm⟩

theorem arrays_suffix (t : TypeExpr) (s : List Char) : (arrays t s).2.1 <:+ s := by
  obtain ⟨v, hv, -⟩ := arrays_derives t s
  exact ⟨v, hv.symm⟩

private theorem mark_suffix (t : TypeExpr) (s : List Char) : (mark t s).2.1 <:+ s := by
  by_cases h : (trimStart s).head? = some '='
  · obtain ⟨r, hr⟩ := List.head?_eq_some_iff.1 h
    rw [(mark_eq hr).2]
    exact suffix_of_trimStart (o := ['=']) hr
  · simp [mark_end h]

/-- Two ways in which a text goes on behind a sign, with the same next character. -/
structure Fork where
  sign : Char
  one : List Char
  two : List Char
  not_isBlank : isBlank sign = false
  head?_eq : one.head? = two.head?

namespace Fork

variable (k : Fork)

def left (v : List Char) : List Char := v ++ k.sign :: k.one

def right (v : List Char) : List Char := v ++ k.sign :: k.two

def swap : Fork := ⟨k.sign, k.two, k.one, k.not_isBlank, k.head?_eq.symm⟩

/-- Two steps do the same, or the first one reads past the sign. -/
inductive Alike {α : Type} {P Q : List Char → Prop} (x : Except Fault (α × { r : List Char // P r }))
    (y : Except Fault (α × { r : List Char // Q r })) : Prop
  | past : Within k.one x → Alike x y
  | reads {a : α} {v : List Char} : Reads x a (k.left v) → Reads y a (k.right v) → Alike x y
  | fails {f : Fault} {v : List Char} :
      x = .error f → f.rest = k.left v → y = .error (f.withRest (k.right v)) → Alike x y

/-- Two texts that are left behind a token, each shorter than `n` before the sign; or the first one has
no sign any more. -/
inductive Ahead (n : Nat) : List Char → List Char → Prop
  | past {l l' : List Char} : l <:+ k.one → Ahead n l l'
  | before {v : List Char} : v.length < n → Ahead n (k.left v) (k.right v)

variable {k}

theorem length_lt_of_left {u v : List Char} (h : (k.left v).length < (k.left u).length) :
    v.length < u.length := by
  simpa [left] using h

theorem trimStart_left (v : List Char) : trimStart (k.left v) = k.left (trimStart v) :=
  trimStart_append_cons k.not_isBlank v k.one

theorem trimStart_right (v : List Char) : trimStart (k.right v) = k.right (trimStart v) :=
  trimStart_append_cons k.not_isBlank v k.two

theorem head?_left (v : List Char) : (k.left v).head? = (k.right v).head? := by
  cases v <;> rfl

/-- A token of at most two characters stands in front of both texts or of none. -/
theorem exists_token {u o l : List Char} (h : trimStart (k.left u) = o ++ l) (hpos : 0 < o.length)
    (hlen : o.length ≤ 2) : ∃ l', trimStart (k.right u) = o ++ l' ∧ k.Ahead u.length l l' := by
  have hu := length_trimStart_le u
  rw [trimStart_left] at h
  rw [trimStart_right]
  generalize trimStart u = v at h hu
  rcases List.append_eq_append_iff.1 h with ⟨a, ho, hl⟩ | ⟨b, rfl, rfl⟩
  · rw [ho, List.length_append] at hpos hlen
    match a, hl, hlen with
    | [], hl, _ =>
      refine ⟨k.right [], by rw [ho, List.append_nil]; rfl, ?_⟩
      rw [← List.nil_append l, ← hl]
      exact @Ahead.before k u.length [] (Nat.lt_of_lt_of_le hpos hu)
    | [d], hl, _ =>
      obtain ⟨rfl, rfl⟩ := List.cons.inj hl
      exact ⟨k.two, by rw [ho, List.append_assoc]; rfl, .past (List.suffix_refl _)⟩
    | [d, e], hl, _ =>
      -- The token ends with the character behind the sign, which both texts have.
      obtain ⟨rfl, hone⟩ := List.cons.inj hl
      have htwo : k.two.head? = some e := by rw [← k.head?_eq, hone]; rfl
      obtain ⟨l', hl'⟩ := List.head?_eq_some_iff.1 htwo
      refine ⟨l', ?_, .past (hone ▸ List.suffix_cons e l)⟩
      rw [ho, right, hl', List.append_assoc]
      rfl
    | _ :: _ :: _ :: _, _, hlen =>
      simp only [List.length_cons] at hlen
      omega
  · refine ⟨k.right b, by rw [right, List.append_assoc]; rfl, .before ?_⟩
    rw [List.length_append] at hu
    omega

/-- A look at the next token finds none in both texts, or it finds one in both. -/
def LooksAlike (k : Fork) (look? : (s : List Char) → Option (After s)) (u : List Char) : Prop :=
  look? (k.left u) = none ∧ look? (k.right u) = none ∨
    ∃ l hl l' hl', look? (k.left u) = some ⟨l, hl⟩ ∧ look? (k.right u) = some ⟨l', hl'⟩ ∧
      k.Ahead u.length l l'

theorem looksAlike_of_tokens {look? : (s : List Char) → Option (After s)} (token : List Char → Prop)
    (htoken : ∀ o, token o → 0 < o.length ∧ o.length ≤ 2)
    (hlook : ∀ {s : List Char} {r : After s}, look? s = some r ↔ ∃ o, token o ∧ trimStart s = o ++ r.1)
    (u : List Char) : k.LooksAlike look? u := by
  have hlength : ∀ {s o l : List Char}, token o → trimStart s = o ++ l → l.length < s.length := by
    intro s o l ho hs
    have hs' := length_trimStart_le s
    rw [hs, List.length_append] at hs'
    have hpos := (htoken o ho).1
    omega
  cases hl : look? (k.left u) with
  | some l =>
    obtain ⟨o, ho, hs⟩ := hlook.1 hl
    obtain ⟨l', hs', hahead⟩ := exists_token hs (htoken o ho).1 (htoken o ho).2
    exact .inr ⟨l.1, l.2, l', hlength ho hs', hl, hlook.2 ⟨o, ho, hs'⟩, hahead⟩
  | none =>
    refine .inl ⟨hl, Option.eq_none_iff_forall_ne_some.2 ?_⟩
    intro l' hl'
    obtain ⟨o, ho, hs'⟩ := hlook.1 hl'
    obtain ⟨l, hs, -⟩ := exists_token (k := k.swap) hs' (htoken o ho).1 (htoken o ho).2
    have hl₁ : look? (k.left u) = some ⟨l, hlength ho hs⟩ := hlook.2 ⟨o, ho, hs⟩
    cases hl.symm.trans hl₁

theorem looksAlike_eat? (c : Char) (u : List Char) : k.LooksAlike (eat? c) u :=
  looksAlike_of_tokens (· = [c]) (by rintro o rfl; simp)
    (by intro s r; rw [eat?_eq_some_iff]; simp) u

theorem looksAlike_brackets? (u : List Char) : k.LooksAlike brackets? u :=
  looksAlike_of_tokens (· = ['[', ']']) (by rintro o rfl; decide)
    (by intro s r; rw [brackets?_eq_some_iff]; simp) u

theorem looksAlike_opening? (u : List Char) : k.LooksAlike opening? u :=
  looksAlike_of_tokens Opening (by rintro o (_ | _) <;> decide) opening?_eq_some_iff u

theorem Ahead.pure {α : Type} {P Q : List Char → Prop} {n : Nat} {l l' : List Char}
    (h : k.Ahead n l l') {a : α} {hl : P l} {hl' : Q l'} :
    k.Alike (pure (a, ⟨l, hl⟩) : Except Fault (α × { r : List Char // P r }))
      (pure (a, ⟨l', hl'⟩) : Except Fault (α × { r : List Char // Q r })) := by
  cases h with
  | past hs => exact .past (within_pure hs)
  | before => exact .reads (reads_pure.2 ⟨rfl, rfl⟩) (reads_pure.2 ⟨rfl, rfl⟩)

theorem alike_pure {α : Type} {P Q : List Char → Prop} (v : List Char) {a : α} {h : P (k.left v)}
    {h' : Q (k.right v)} :
    k.Alike (pure (a, ⟨k.left v, h⟩) : Except Fault (α × { r : List Char // P r }))
      (pure (a, ⟨k.right v, h'⟩) : Except Fault (α × { r : List Char // Q r })) :=
  (Ahead.before (Nat.lt_succ_self v.length)).pure

section

variable {α β : Type} {P Q P' Q' : List Char → Prop} {x : Except Fault (α × { r : List Char // P r })}
  {y : Except Fault (α × { r : List Char // Q r })}

theorem Alike.bind {g : α × { r : List Char // P r } → Except Fault (β × { r : List Char // P' r })}
    {g' : α × { r : List Char // Q r } → Except Fault (β × { r : List Char // Q' r })}
    (h : k.Alike x y) (hw : ∀ a l h, Within l (g (a, ⟨l, h⟩)))
    (hg : ∀ a v h h', k.Alike (g (a, ⟨k.left v, h⟩)) (g' (a, ⟨k.right v, h'⟩))) :
    k.Alike (x >>= g) (y >>= g') := by
  cases h with
  | past hx => exact .past (hx.bind hw)
  | reads hx hy =>
    obtain ⟨h, rfl⟩ := hx
    obtain ⟨h', rfl⟩ := hy
    exact hg _ _ h h'
  | fails hx hf hy =>
    rw [hx, hy]
    exact .fails rfl hf rfl

theorem Alike.map {f : α → β} {g : ∀ r, P r → P' r} {g' : ∀ r, Q r → Q' r} (h : k.Alike x y) :
    k.Alike
      (x >>= fun p => pure (f p.1, (⟨p.2.1, g p.2.1 p.2.2⟩ : { r : List Char // P' r })))
      (y >>= fun p => pure (f p.1, (⟨p.2.1, g' p.2.1 p.2.2⟩ : { r : List Char // Q' r }))) :=
  h.bind (fun _ r _ => within_pure (List.suffix_refl r)) fun _ v _ _ => alike_pure v

end

theorem alike_expect_bind {β : Type} {P Q : List Char → Prop} (c : Char) (v : List Char)
    {g : After (k.left v) → Except Fault (β × { r : List Char // P r })}
    {g' : After (k.right v) → Except Fault (β × { r : List Char // Q r })}
    (hg : ∀ l l', k.Ahead v.length l.1 l'.1 → k.Alike (g l) (g' l')) :
    k.Alike (expect c (k.left v) >>= g) (expect c (k.right v) >>= g') := by
  unfold expect
  rcases looksAlike_eat? (k := k) c v with ⟨h, h'⟩ | ⟨l, hl, l', hl', h, h', hahead⟩
  · rw [h, h', trimStart_left, trimStart_right]
    exact .fails rfl rfl rfl
  · rw [h, h']
    exact hg ⟨l, hl⟩ ⟨l', hl'⟩ hahead

/-- Two steps give the same and leave the same, or the first one has passed the sign. -/
def Same {α : Type} (k : Fork) (a a' : α) (l l' : List Char) : Prop :=
  l <:+ k.one ∨ ∃ v, l = k.left v ∧ l' = k.right v ∧ a = a'

theorem Same.pure {α : Type} {P Q : List Char → Prop} {a a' : α} {l l' : List Char}
    (h : k.Same a a' l l') {hl : P l} {hl' : Q l'} :
    k.Alike (pure (a, ⟨l, hl⟩) : Except Fault (α × { r : List Char // P r }))
      (pure (a', ⟨l', hl'⟩) : Except Fault (α × { r : List Char // Q r })) := by
  rcases h with hs | ⟨v, rfl, rfl, rfl⟩
  · exact .past (within_pure hs)
  · exact alike_pure v

theorem same_nameTail (v : List Char) : k.Same (nameTail (k.left v)).1 (nameTail (k.right v)).1
    (nameTail (k.left v)).2.1 (nameTail (k.right v)).2.1 := by
  have hextends : ∀ v, extendsName (k.left v) = extendsName (k.right v) := by
    intro v
    cases v with
    | nil => simp [left, right, extendsName, k.head?_eq]
    | cons d v =>
      have hhead : (v ++ k.sign :: k.one).head? = (v ++ k.sign :: k.two).head? := head?_left v
      simp [left, right, extendsName, hhead]
  have hstop : ∀ v, extendsName (k.left v) = false → k.Same (nameTail (k.left v)).1
      (nameTail (k.right v)).1 (nameTail (k.left v)).2.1 (nameTail (k.right v)).2.1 := by
    intro v hend
    have hend' := (hextends v).symm.trans hend
    obtain ⟨h₁, h₂⟩ : (nameTail (k.left v)).1 = [] ∧ (nameTail (k.left v)).2.1 = k.left v := by
      cases v <;> exact nameTail_end hend
    obtain ⟨h₁', h₂'⟩ : (nameTail (k.right v)).1 = [] ∧ (nameTail (k.right v)).2.1 = k.right v := by
      cases v <;> exact nameTail_end hend'
    exact .inr ⟨v, h₂, h₂', h₁.trans h₁'.symm⟩
  induction v with
  | nil =>
    by_cases h : extendsName (k.left [])
    · have hrest : (nameTail (k.left [])).2.1 = (nameTail k.one).2.1 := (nameTail_step h).2
      exact .inl (hrest ▸ nameTail_suffix k.one)
    · exact hstop [] (eq_false_of_ne_true h)
  | cons d v ih =>
    by_cases h : extendsName (k.left (d :: v))
    · have h' := (hextends (d :: v)).symm.trans h
      obtain ⟨h₁, h₂⟩ := nameTail_step (s := k.left v) h
      obtain ⟨h₁', h₂'⟩ := nameTail_step (s := k.right v) h'
      rcases ih with hpast | ⟨v', hl, hr, hcs⟩
      · exact .inl (h₂.symm ▸ hpast)
      · exact .inr ⟨v', h₂.trans hl, h₂'.trans hr, h₁.trans ((congrArg (d :: ·) hcs).trans h₁'.symm)⟩
    · exact hstop (d :: v) (eq_false_of_ne_true h)

theorem same_arrays (t : TypeExpr) (v : List Char) : k.Same (arrays t (k.left v)).1
    (arrays t (k.right v)).1 (arrays t (k.left v)).2.1 (arrays t (k.right v)).2.1 := by
  rcases looksAlike_brackets? (k := k) v with ⟨h, h'⟩ | ⟨l, hl, l', hl', h, h', hahead⟩
  · rw [arrays_end h, arrays_end h']
    exact .inr ⟨v, rfl, rfl, rfl⟩
  · obtain ⟨h₁, h₂⟩ := arrays_cons (t := t) (brackets?_eq_some_iff.1 h)
    obtain ⟨h₁', h₂'⟩ := arrays_cons (t := t) (brackets?_eq_some_iff.1 h')
    rw [h₁, h₂, h₁', h₂']
    cases hahead with
    | past hs => exact .inl ((arrays_suffix _ l).trans hs)
    | @before v' hv => exact same_arrays (arrayOf t) v'
termination_by v.length

theorem same_mark (t : TypeExpr) (v : List Char) : k.Same (mark t (k.left v)).1
    (mark t (k.right v)).1 (mark t (k.left v)).2.1 (mark t (k.right v)).2.1 := by
  by_cases h : (trimStart (k.left v)).head? = some '='
  · obtain ⟨l, hl⟩ := List.head?_eq_some_iff.1 h
    obtain ⟨l', hl', hahead⟩ := exists_token (o := ['=']) hl (by decide) (by decide)
    rw [(mark_eq hl).1, (mark_eq hl).2, (mark_eq hl').1, (mark_eq hl').2]
    cases hahead with
    | past hs => exact .inl hs
    | @before v' _ => exact .inr ⟨v', rfl, rfl, rfl⟩
  · have h' : (trimStart (k.right v)).head? ≠ some '=' := by
      rwa [trimStart_right, ← head?_left, ← trimStart_left]
    rw [mark_end h, mark_end h']
    exact .inr ⟨v, rfl, rfl, rfl⟩

-- The steps that can fail. The induction is on what stands before the sign: a step on the same text
-- is one level down in the grammar, and all other steps are on shorter texts or on texts without the
-- sign.

structure Unmoved (k : Fork) (l l' : List Char) : Prop where
  alternation : k.Alike (alternation l) (alternation l')
  alternatives : k.Alike (alternatives l) (alternatives l')
  suffixed : k.Alike (suffixed l) (suffixed l')
  arguments : k.Alike (arguments l) (arguments l')

section

variable {u : List Char} (ih : ∀ v, v.length < u.length → k.Unmoved (k.left v) (k.right v))

include ih

theorem Ahead.unmoved {n : Nat} {l l' : List Char} (h : k.Ahead n l l') (hn : n ≤ u.length) :
    k.Unmoved l l' := by
  cases h with
  | past hs => exact ⟨.past ((within_alternation l).trans hs), .past ((within_alternatives l).trans hs),
      .past ((within_suffixed l).trans hs), .past ((within_arguments l).trans hs)⟩
  | before hv => exact ih _ (Nat.lt_of_lt_of_le hv hn)

theorem alike_atom : k.Alike (atom (k.left u)) (atom (k.right u)) := by
  obtain ⟨c, l, hl⟩ : ∃ c l, trimStart (k.left u) = c :: l := by
    rw [trimStart_left]
    cases trimStart u with
    | nil => exact ⟨_, _, rfl⟩
    | cons d v => exact ⟨_, _, rfl⟩
  obtain ⟨l', hl', hahead⟩ := exists_token (o := [c]) hl (by simp) (by simp)
  rw [List.singleton_append] at hl'
  have hunmoved := hahead.unmoved ih (Nat.le_refl _)
  rw [atom, atom, token?_eq_some_of_trimStart hl, token?_eq_some_of_trimStart hl']
  dsimp only
  split
  next =>
    refine hunmoved.alternation.bind ?_ ?_
    · intro t r hr
      exact within_expect_bind fun r' hr' => within_pure (List.suffix_refl r')
    · intro t v hv hv'
      exact alike_expect_bind ')' v fun r r' hr => hr.pure
  next =>
    split
    next => exact hahead.pure
    next =>
      split
      next =>
        have hsame : k.Same (nameTail l).1 (nameTail l').1 (nameTail l).2.1 (nameTail l').2.1 := by
          cases hahead with
          | past hs => exact .inl ((nameTail_suffix l).trans hs)
          | @before v _ => exact same_nameTail v
        have hlt := length_lt_of_trimStart_eq_cons hl
        generalize nameTail l = p at hsame ⊢
        generalize nameTail l' = p' at hsame ⊢
        obtain ⟨cs, r, hr⟩ := p
        obtain ⟨cs', r', hr'⟩ := p'
        rcases hsame with hs | ⟨v, rfl, rfl, rfl⟩
        · refine .past ?_
          dsimp only
          split
          next r₂ h₂ ho =>
            obtain ⟨o, -, hopen⟩ := opening?_eq_some_iff.1 ho
            exact ((within_arguments r₂).trans ((suffix_of_trimStart hopen).trans hs)).map
          next => exact within_pure hs
        · dsimp only
          rcases looksAlike_opening? (k := k) v with ⟨h, h'⟩ | ⟨l, hl, l', hl', h, h', hahead⟩
          · rw [h, h']
            exact alike_pure v
          · rw [h, h']
            have hv := length_lt_of_left (Nat.lt_of_le_of_lt hr hlt)
            exact (hahead.unmoved ih (Nat.le_of_lt hv)).arguments.map
      next =>
        rw [trimStart_left] at hl
        rw [trimStart_right] at hl'
        rw [← hl, ← hl']
        exact .fails rfl rfl rfl

theorem alike_marked : k.Alike (marked (k.left u)) (marked (k.right u)) := by
  rw [marked, marked]
  rcases looksAlike_eat? (k := k) '?' u with ⟨h, h'⟩ | ⟨l, hl, l', hl', h, h', hahead⟩
  · rw [h, h']
    rcases looksAlike_eat? (k := k) '!' u with ⟨h, h'⟩ | ⟨l, hl, l', hl', h, h', hahead⟩
    · rw [h, h']
      exact alike_atom ih
    · rw [h, h']
      exact (hahead.unmoved ih (Nat.le_refl _)).suffixed.map
  · rw [h, h']
    exact (hahead.unmoved ih (Nat.le_refl _)).suffixed.map

theorem alike_suffixed : k.Alike (suffixed (k.left u)) (suffixed (k.right u)) := by
  rw [suffixed, suffixed]
  refine (alike_marked ih).bind ?_ ?_
  · intro t l hl
    exact within_pure ((mark_suffix _ _).trans (arrays_suffix t l))
  · intro t v hv hv'
    apply Same.pure
    rcases same_arrays (k := k) t v with hs | ⟨v₁, h₁, h₁', ht⟩
    · exact .inl ((mark_suffix _ _).trans hs)
    · rw [h₁, h₁', ht]
      exact same_mark _ v₁

theorem alike_alternatives : k.Alike (alternatives (k.left u)) (alternatives (k.right u)) := by
  rw [alternatives, alternatives]
  rcases looksAlike_eat? (k := k) '|' u with ⟨h, h'⟩ | ⟨l, hl, l', hl', h, h', hahead⟩
  · rw [h, h']
    exact alike_pure u
  · rw [h, h']
    refine (hahead.unmoved ih (Nat.le_refl _)).suffixed.bind ?_ ?_
    · intro t r hr
      exact (within_alternatives r).map
    · intro t v hv hv'
      exact (ih v (length_lt_of_left (Nat.lt_trans hv hl))).alternatives.map

theorem alike_alternation : k.Alike (alternation (k.left u)) (alternation (k.right u)) := by
  rw [alternation, alternation]
  refine (alike_suffixed ih).bind ?_ ?_
  · intro t r hr
    exact (within_alternatives r).map
  · intro t v hv hv'
    exact (ih v (length_lt_of_left hv)).alternatives.map

theorem alike_arguments : k.Alike (arguments (k.left u)) (arguments (k.right u)) := by
  rw [arguments, arguments]
  refine (alike_alternation ih).bind ?_ ?_
  · intro t r hr
    dsimp only
    split
    next r₁ h₁ he =>
      have hs : r₁ <:+ r := suffix_of_trimStart (o := [',']) (eat?_eq_some_iff.1 he)
      exact ((within_arguments r₁).trans hs).map
    next => exact within_expect_bind fun r' hr' => within_pure (List.suffix_refl r')
  · intro t v hv hv'
    dsimp only
    rcases looksAlike_eat? (k := k) ',' v with ⟨h, h'⟩ | ⟨l, hl, l', hl', h, h', hahead⟩
    · rw [h, h']
      exact alike_expect_bind '>' v fun r r' hr => hr.pure
    · rw [h, h']
      exact (hahead.unmoved ih (Nat.le_of_lt (length_lt_of_left hv))).arguments.map

end

theorem unmoved (k : Fork) (u : List Char) : k.Unmoved (k.left u) (k.right u) :=
  have ih : ∀ v, v.length < u.length → k.Unmoved (k.left v) (k.right v) := fun v _ => unmoved k v
  ⟨alike_alternation ih, alike_alternatives ih, alike_suffixed ih, alike_arguments ih⟩
termination_by u.length

end Fork

end AnnotatedApi.TypeExpr
