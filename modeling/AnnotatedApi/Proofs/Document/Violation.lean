import AnnotatedApi.Proofs.Document.Reference

/-! What each violation says of a document. Main statement: the check lists what the document violates,
and nothing else. -/
namespace AnnotatedApi

/-- `default`, a code from 100 to 599, or a range from `1XX` to `5XX`. -/
def StatusKey (s : String) : Prop :=
  s = "default" ∨ ∃ a b c, s = String.ofList [a, b, c] ∧ '1' ≤ a ∧ a ≤ '5' ∧
    (b.isDigit ∧ c.isDigit ∨ b = 'X' ∧ c = 'X')

/-- A member that is missing, null or a text. -/
def FreeObject.TextAt (o : FreeObject) (name : String) : Prop :=
  o.get? name = none ∨ o.get? name = some .null ∨ ∃ s, o.get? name = some (.str s)

structure Info.Valid (i : Info) : Prop where
  contact : ∀ c ∈ i.contact, c.TextAt "name" ∧ c.TextAt "url" ∧ c.TextAt "email"
  license : ∀ l ∈ i.license, (∃ s, l.get? "name" = some (.str s)) ∧ l.TextAt "url"

def FreeObject.NotTextAt (o : FreeObject) (name : String) (v : Json) (kind : String) : Prop :=
  o.get? name = some v ∧ v.notText? = some kind

/-- What does not decode. Only the name of a license may be neither missing nor null. -/
inductive Info.Misfit (i : Info) : ShapeFault → Prop
  | contact {c : FreeObject} {name kind : String} {v : Json} : c ∈ i.contact →
      name ∈ ["name", "url", "email"] → c.NotTextAt name v kind → v ≠ .null → Misfit i (.notText kind)
  | license {l : FreeObject} {name kind : String} {v : Json} : l ∈ i.license →
      l.NotTextAt name v kind → name = "name" ∨ name = "url" ∧ v ≠ .null → Misfit i (.notText kind)
  | noName {l : FreeObject} : l ∈ i.license → l.get? "name" = none → Misfit i .noName

namespace Document

/-- What a violation says holds of the document. An id is reported where it is used again. -/
inductive Violates (d : Document) : Violation → Prop
  | version : (¬∃ rest, d.openapi = "3.0." ++ rest) → Violates d (.version d.openapi)
  | path {p : String} : p ∈ d.paths.keys → (¬∃ rest, p = "/" ++ rest) → Violates d (.path p)
  | duplicateId {path path' : String} {m m' : Method} {o o' : Operation} :
      [(path', m', o'), (path, m, o)].Sublist d.operations → o'.operationId = o.operationId →
      Violates d (.duplicateId o.operationId (.operation m path))
  | noResponses {path : String} {m : Method} {o : Operation} : d.Serves path m o →
      (∀ rs, o.responses = some rs → rs.keys = []) → Violates d (.noResponses (.operation m path))
  | status {path : String} {m : Method} {o : Operation} {rs : OrderedMap Content} {s : String} :
      d.Serves path m o → o.responses = some rs → s ∈ rs.keys → ¬StatusKey s →
      Violates d (.status (.operation m path) s)
  | location {path : String} {m : Method} {o : Operation} {p : Parameter} : d.Serves path m o →
      p ∈ o.parameterList → p.location ∉ ["query", "header", "path", "cookie"] →
      Violates d (.location p.name (.operation m path) p.location)
  | optionalPath {path : String} {m : Method} {o : Operation} {p : Parameter} :
      d.Serves path m o → p ∈ o.parameterList → p.location = "path" → p.required = false →
      Violates d (.optionalPath p.name (.operation m path))
  | unknownSchema {place : Place} {r n : String} : d.Refers place r → Schema.LeadsTo r n →
      n ∉ d.schemas.keys → Violates d (.unknownSchema place n)
  | shape {f : ShapeFault} : d.info.Misfit f → Violates d (.shape f)

end Document

theorem exists_eq_append_iff {s t : String} : (∃ rest, s = t ++ rest) ↔ t.toList <+: s.toList := by
  constructor
  · rintro ⟨rest, rfl⟩
    rw [String.toList_append]
    exact List.prefix_append _ _
  · rintro ⟨rest, h⟩
    refine ⟨String.ofList rest, ?_⟩
    rw [← String.toList_inj, String.toList_append, String.toList_ofList, h]

theorem isStatus_iff {s : String} : isStatus s ↔ StatusKey s := by
  unfold isStatus StatusKey
  rw [Bool.or_eq_true, decide_eq_true_iff]
  apply or_congr_right
  constructor
  · intro h
    split at h
    next a b c hs =>
      refine ⟨a, b, c, by rw [← hs, String.ofList_toList], ?_⟩
      simpa [and_assoc] using h
    next => exact absurd h Bool.false_ne_true
  · rintro ⟨a, b, c, rfl, h⟩
    rw [String.toList_ofList]
    simpa [and_assoc] using h

theorem Json.notText?_eq_none_iff {v : Json} : v.notText? = none ↔ ∃ s, v = .str s := by
  rcases v with _ | _ | (_ | _) | _ | _ | _ <;> simp [notText?]

namespace FreeObject

variable {o : FreeObject} {name : String} {f : ShapeFault}

theorem mem_textFaults_iff :
    f ∈ o.textFaults name ↔ ∃ v kind, o.NotTextAt name v kind ∧ f = .notText kind := by
  simp only [textFaults, Option.mem_toList, Option.map_eq_some_iff, Option.bind_eq_some_iff, NotTextAt]
  constructor
  · rintro ⟨kind, ⟨v, hv, hkind⟩, rfl⟩
    exact ⟨v, kind, ⟨hv, hkind⟩, rfl⟩
  · rintro ⟨v, kind, ⟨hv, hkind⟩, rfl⟩
    exact ⟨kind, ⟨v, hv, hkind⟩, rfl⟩

theorem mem_optionalTextFaults_iff : f ∈ o.optionalTextFaults name ↔
    ∃ v kind, o.NotTextAt name v kind ∧ v ≠ .null ∧ f = .notText kind := by
  unfold optionalTextFaults
  split
  next hnull =>
    refine ⟨fun h => absurd h List.not_mem_nil, ?_⟩
    rintro ⟨v, kind, ⟨hv, -⟩, hne, -⟩
    exact absurd (Option.some.inj (hv.symm.trans hnull)) hne
  next hnull =>
    rw [mem_textFaults_iff]
    constructor
    · rintro ⟨v, kind, h, rfl⟩
      exact ⟨v, kind, h, fun hv => hnull (hv ▸ h.1), rfl⟩
    · rintro ⟨v, kind, h, -, rfl⟩
      exact ⟨v, kind, h, rfl⟩

theorem textAt_of_forall_not (h : ∀ v kind, o.NotTextAt name v kind → v = .null) : o.TextAt name := by
  unfold TextAt
  cases hv : o.get? name with
  | none => exact .inl rfl
  | some v =>
    cases hkind : v.notText? with
    | none =>
      obtain ⟨s, rfl⟩ := Json.notText?_eq_none_iff.1 hkind
      exact .inr (.inr ⟨s, rfl⟩)
    | some kind => exact .inr (.inl (congrArg some (h v kind ⟨hv, hkind⟩)))

theorem TextAt.eq_null {v : Json} {kind : String} (h : o.TextAt name) (hv : o.NotTextAt name v kind) :
    v = .null := by
  obtain ⟨hv, hkind⟩ := hv
  rcases h with h | h | ⟨s, h⟩
  · cases h.symm.trans hv
  · exact Option.some.inj (hv.symm.trans h)
  · cases h.symm.trans hv
    cases hkind

end FreeObject

namespace Info

variable {i : Info} {f : ShapeFault}

theorem mem_faults_iff : f ∈ i.faults ↔ i.Misfit f := by
  have hgetD : ∀ (o : Option FreeObject) (g : FreeObject → List ShapeFault),
      f ∈ (o.map g).getD [] ↔ ∃ c ∈ o, f ∈ g c := by
    intro o g
    cases o <;> simp
  have hmissing : ∀ l : FreeObject, f ∈ (if (l.get? "name").isNone then [ShapeFault.noName] else []) ↔
      l.get? "name" = none ∧ f = .noName := by
    intro l
    cases l.get? "name" <;> simp
  have hnames : ["email", "name", "url"].Perm ["name", "url", "email"] := by decide
  simp only [faults, List.mem_append, hgetD, FreeObject.contactFaults, FreeObject.licenseFaults,
    List.mem_flatMap, hmissing, FreeObject.mem_textFaults_iff, FreeObject.mem_optionalTextFaults_iff]
  constructor
  · rintro (⟨c, hc, name, hname, v, kind, h, hne, rfl⟩ |
      ⟨l, hl, (⟨v, kind, h, rfl⟩ | ⟨v, kind, h, hne, rfl⟩) | ⟨h, rfl⟩⟩)
    · exact .contact hc (hnames.mem_iff.1 hname) h hne
    · exact .license hl h (.inl rfl)
    · exact .license hl h (.inr ⟨rfl, hne⟩)
    · exact .noName hl h
  · rintro (⟨hc, hname, h, hne⟩ | ⟨hl, h, rfl | ⟨rfl, hne⟩⟩ | ⟨hl, h⟩)
    · exact .inl ⟨_, hc, _, hnames.mem_iff.2 hname, _, _, h, hne, rfl⟩
    · exact .inr ⟨_, hl, .inl (.inl ⟨_, _, h, rfl⟩)⟩
    · exact .inr ⟨_, hl, .inl (.inr ⟨_, _, h, hne, rfl⟩)⟩
    · exact .inr ⟨_, hl, .inr ⟨h, rfl⟩⟩

theorem valid_iff_not_misfit : i.Valid ↔ ∀ f, ¬i.Misfit f := by
  constructor
  · rintro ⟨hcontact, hlicense⟩ f hf
    cases hf with
    | @contact c name kind v hc hname h hne =>
      obtain ⟨hn, hu, he⟩ := hcontact c hc
      have htext : c.TextAt name := by
        rcases List.mem_cons.1 hname with rfl | hname
        · exact hn
        · rcases List.mem_cons.1 hname with rfl | hname
          · exact hu
          · exact List.mem_singleton.1 hname ▸ he
      exact hne (htext.eq_null h)
    | @license l name kind v hl h hname =>
      obtain ⟨⟨s, hs⟩, hu⟩ := hlicense l hl
      rcases hname with rfl | ⟨rfl, hne⟩
      · cases hs.symm.trans h.1
        cases h.2
      · exact hne (hu.eq_null h)
    | noName hl h =>
      obtain ⟨⟨s, hs⟩, -⟩ := hlicense _ hl
      cases hs.symm.trans h
  · intro hno
    have htext : ∀ c ∈ i.contact, ∀ name ∈ ["name", "url", "email"], c.TextAt name :=
      fun c hc name hname => FreeObject.textAt_of_forall_not fun v kind h =>
        by_contra fun hne => hno _ (.contact hc hname h hne)
    refine ⟨fun c hc => ?_, fun l hl => ⟨?_, ?_⟩⟩
    · exact ⟨htext c hc _ (by simp), htext c hc _ (by simp), htext c hc _ (by simp)⟩
    · cases hv : l.get? "name" with
      | none => exact absurd (.noName hl hv) (hno _)
      | some v =>
        cases hkind : v.notText? with
        | none =>
          obtain ⟨s, rfl⟩ := Json.notText?_eq_none_iff.1 hkind
          exact ⟨s, rfl⟩
        | some kind => exact absurd (.license hl ⟨hv, hkind⟩ (.inl rfl)) (hno _)
    · exact FreeObject.textAt_of_forall_not fun v kind h =>
        by_contra fun hne => hno _ (.license hl h (.inr ⟨rfl, hne⟩))

end Info

private theorem head?_eq_slash_iff {p : String} :
    p.toList.head? = some '/' ↔ ∃ rest, p = "/" ++ rest := by
  rw [exists_eq_append_iff, List.head?_eq_some_iff]
  constructor
  · rintro ⟨cs, h⟩
    exact ⟨cs, h.symm⟩
  · rintro ⟨cs, h⟩
    exact ⟨cs, h.symm⟩

theorem Parameter.mem_violations_iff {p : Parameter} {place : Place} {v : Violation} :
    v ∈ p.violations place ↔
      p.location ∉ ["query", "header", "path", "cookie"] ∧ v = .location p.name place p.location ∨
        p.location = "path" ∧ p.required = false ∧ v = .optionalPath p.name place := by
  unfold violations
  rw [List.mem_append, List.mem_ite_nil_left, List.mem_ite_nil_right, List.mem_singleton,
    List.mem_singleton, Bool.not_eq_true, and_assoc]
  rfl

theorem Operation.mem_violations_iff {o : Operation} {place : Place} {v : Violation} :
    v ∈ o.violations place ↔
      (∀ rs, o.responses = some rs → rs.keys = []) ∧ v = .noResponses place ∨
        (∃ rs s, o.responses = some rs ∧ s ∈ rs.keys ∧ ¬StatusKey s ∧ v = .status place s) ∨
        ∃ p ∈ o.parameterList, v ∈ p.violations place := by
  unfold violations
  rw [List.mem_append, List.mem_append, or_assoc, List.mem_flatMap]
  apply or_congr
  · cases o.responses <;> simp
  · apply or_congr_left
    cases o.responses with
    | none => simp
    | some rs =>
      constructor
      · intro h
        obtain ⟨s, hs, hv⟩ := List.mem_map.1 h
        obtain ⟨hs, hbad⟩ := List.mem_filter.1 hs
        exact ⟨rs, s, rfl, hs, by rw [← isStatus_iff]; simpa using hbad, hv.symm⟩
      · rintro ⟨_, s, hrs, hs, hbad, rfl⟩
        cases hrs
        rw [← isStatus_iff] at hbad
        exact List.mem_map.2 ⟨s, List.mem_filter.2 ⟨hs, by simpa using hbad⟩, rfl⟩

theorem pair_sublist_append_iff {α : Type} {a b : α} {l₁ l₂ : List α} :
    [a, b].Sublist (l₁ ++ l₂) ↔ [a, b].Sublist l₁ ∨ a ∈ l₁ ∧ b ∈ l₂ ∨ [a, b].Sublist l₂ := by
  constructor
  · intro h
    obtain ⟨k₁, k₂, hk, h₁, h₂⟩ := List.sublist_append_iff.1 h
    match k₁, k₂, hk with
    | [], _, rfl => exact .inr (.inr h₂)
    | [_], _, rfl => exact .inr (.inl ⟨List.singleton_sublist.1 h₁, List.singleton_sublist.1 h₂⟩)
    | [_, _], _, rfl => exact .inl h₁
  · rintro (h | ⟨ha, hb⟩ | h)
    · exact h.trans (List.sublist_append_left _ _)
    · exact (List.singleton_sublist.2 ha).append (List.singleton_sublist.2 hb)
    · exact h.trans (List.sublist_append_right _ _)

theorem mem_of_pair_sublist {α : Type} {a b : α} {l : List α} (h : [a, b].Sublist l) :
    a ∈ l ∧ b ∈ l :=
  ⟨h.subset List.mem_cons_self, h.subset (List.mem_cons_of_mem _ List.mem_cons_self)⟩

theorem pair_sublist_or {α : Type} {a b : α} {l : List α} (ha : a ∈ l) (hb : b ∈ l) (hne : a ≠ b) :
    [a, b].Sublist l ∨ [b, a].Sublist l := by
  obtain ⟨l₁, l₂, rfl⟩ := List.append_of_mem ha
  rcases List.mem_append.1 hb with hb | hb
  · exact .inr (pair_sublist_append_iff.2 (.inr (.inl ⟨hb, List.mem_cons_self⟩)))
  · have hb : b ∈ l₂ := (List.mem_cons.1 hb).resolve_left hne.symm
    exact .inl (((List.singleton_sublist.2 hb).cons_cons a).trans (List.sublist_append_right _ _))

abbrev Located := String × Method × Operation

namespace Located

def place (x : Located) : Place := .operation x.2.1 x.1

def id (x : Located) : String := x.2.2.operationId

/-- An operation uses an id that is in `seen`, or that one before it in the list uses. -/
def Reuses (seen : List String) (l : List Located) (x : Located) : Prop :=
  x ∈ l ∧ x.id ∈ seen ∨ ∃ y, [y, x].Sublist l ∧ y.id = x.id

theorem reuses_singleton {seen : List String} {x y : Located} :
    Reuses seen [y] x ↔ x = y ∧ y.id ∈ seen := by
  have hpair : ∀ z, ¬[z, x].Sublist [y] := fun z h => by simpa using h.length_le
  simp only [Reuses, hpair, false_and, exists_false, or_false, List.mem_singleton]
  constructor
  · rintro ⟨rfl, h⟩
    exact ⟨rfl, h⟩
  · rintro ⟨rfl, h⟩
    exact ⟨rfl, h⟩

/-- The operations of the first part count as seen in the second. -/
theorem reuses_append {seen : List String} {l₁ l₂ : List Located} {x : Located} :
    Reuses seen (l₁ ++ l₂) x ↔ Reuses seen l₁ x ∨ Reuses (l₁.map id ++ seen) l₂ x := by
  simp only [Reuses, pair_sublist_append_iff, List.mem_append, List.mem_map]
  constructor
  · rintro (⟨h | h, hs⟩ | ⟨y, h | ⟨hy, hx⟩ | h, he⟩)
    · exact .inl (.inl ⟨h, hs⟩)
    · exact .inr (.inl ⟨h, .inr hs⟩)
    · exact .inl (.inr ⟨y, h, he⟩)
    · exact .inr (.inl ⟨hx, .inl ⟨y, hy, he⟩⟩)
    · exact .inr (.inr ⟨y, h, he⟩)
  · rintro ((⟨h, hs⟩ | ⟨y, h, he⟩) | (⟨h, ⟨y, hy, he⟩ | hs⟩ | ⟨y, h, he⟩))
    · exact .inl ⟨.inl h, hs⟩
    · exact .inr ⟨y, .inl h, he⟩
    · exact .inr ⟨y, .inr (.inl ⟨hy, h⟩), he⟩
    · exact .inl ⟨.inr h, hs⟩
    · exact .inr ⟨y, .inr (.inr h), he⟩

def Faulty (seen : List String) (l : List Located) (v : Violation) : Prop :=
  (∃ x ∈ l, v ∈ x.2.2.violations x.place) ∨
    ∃ x, Reuses seen l x ∧ v = .duplicateId x.id x.place

theorem faulty_append {seen : List String} {l₁ l₂ : List Located} {v : Violation} :
    Faulty seen (l₁ ++ l₂) v ↔ Faulty seen l₁ v ∨ Faulty (l₁.map id ++ seen) l₂ v := by
  simp only [Faulty, reuses_append, List.mem_append, or_and_right, exists_or]
  exact or_or_or_comm

private theorem faulty_cons {seen : List String} {x : Located} {l : List Located} {v : Violation} :
    Faulty seen (x :: l) v ↔
      (x.id ∈ seen ∧ v = .duplicateId x.id x.place ∨ v ∈ x.2.2.violations x.place) ∨
        Faulty (x.id :: seen) l v := by
  have hx : Faulty seen [x] v ↔
      x.id ∈ seen ∧ v = .duplicateId x.id x.place ∨ v ∈ x.2.2.violations x.place := by
    simp only [Faulty, reuses_singleton, List.mem_singleton, exists_eq_left, and_assoc]
    exact or_comm
  rw [← List.singleton_append, faulty_append, hx]
  rfl

end Located

theorem mem_operationViolations_iff {path : String} {seen : List String}
    {ops : List (Method × Operation)} {v : Violation} :
    v ∈ operationViolations path seen ops ↔ Located.Faulty seen (ops.map (path, ·)) v := by
  induction ops generalizing seen with
  | nil => simp [operationViolations, Located.Faulty, Located.Reuses]
  | cons e ops ih =>
    obtain ⟨m, o⟩ := e
    have hid : v ∈ (if o.operationId ∈ seen then
        [Violation.duplicateId o.operationId (.operation m path)] else []) ↔
        o.operationId ∈ seen ∧ v = .duplicateId o.operationId (.operation m path) := by
      simp
    rw [operationViolations, List.mem_append, List.mem_append, ih, hid, List.map_cons,
      Located.faulty_cons]
    rfl

theorem mem_pathViolations_iff {seen : List String} {entries : List (String × PathItem)}
    {v : Violation} :
    v ∈ pathViolations seen entries ↔
      (∃ p ∈ Entries.keys entries, (¬∃ rest, p = "/" ++ rest) ∧ v = .path p) ∨
        Located.Faulty seen (entries.flatMap fun e => e.2.operations.map (e.1, ·)) v := by
  induction entries generalizing seen with
  | nil => simp [pathViolations, Located.Faulty, Located.Reuses, Entries.keys]
  | cons e entries ih =>
    -- The ids of one path are in `seen` on all later ones.
    obtain ⟨path, item⟩ := e
    have hpath : v ∈ (if path.toList.head? = some '/' then [] else [Violation.path path]) ↔
        (¬∃ rest, path = "/" ++ rest) ∧ v = .path path := by
      rw [← head?_eq_slash_iff, List.mem_ite_nil_left, List.mem_singleton]
    have hids : (item.operations.map (path, ·)).map Located.id =
        item.operations.map (·.2.operationId) := by
      rw [List.map_map]
      rfl
    rw [pathViolations, List.mem_append, List.mem_append, ih, hpath, mem_operationViolations_iff,
      List.flatMap_cons, Located.faulty_append, hids]
    simp only [Entries.keys, List.map_cons, List.mem_cons, or_and_right, exists_or, exists_eq_left]
    exact or_or_or_comm

namespace Document

variable {d : Document} {v : Violation}

theorem violates_of_faulty (h : Located.Faulty [] d.operations v) : d.Violates v := by
  rcases h with ⟨⟨path, m, o⟩, hx, hv⟩ | ⟨⟨path, m, o⟩, hx, rfl⟩
  · have ho := mem_operations_iff.1 hx
    rcases Operation.mem_violations_iff.1 hv with ⟨hr, rfl⟩ | ⟨rs, s, hr, hs, hbad, rfl⟩ | ⟨p, hp, hv⟩
    · exact .noResponses ho hr
    · exact .status ho hr hs hbad
    · rcases Parameter.mem_violations_iff.1 hv with ⟨hl, rfl⟩ | ⟨hl, hr, rfl⟩
      · exact .location ho hp hl
      · exact .optionalPath ho hp hl hr
  · rcases hx with ⟨_, h⟩ | ⟨⟨path', m', o'⟩, hs, he⟩
    · exact absurd h List.not_mem_nil
    · exact .duplicateId hs he

theorem faulty_of_serves {path : String} {m : Method} {o : Operation} (ho : d.Serves path m o)
    (hv : v ∈ o.violations (.operation m path)) : Located.Faulty [] d.operations v :=
  .inl ⟨_, mem_operations_iff.2 ho, hv⟩

/-- The check lists what the document violates, and nothing else. -/
theorem mem_violations_iff : v ∈ d.violations ↔ d.Violates v := by
  unfold violations
  rw [List.mem_append, List.mem_append, List.mem_append, List.mem_ite_nil_left, List.mem_singleton,
    mem_pathViolations_iff]
  constructor
  · rintro (((⟨h, rfl⟩ | (⟨p, hp, hbad, rfl⟩ | h)) | h) | h)
    · exact .version fun hex => h (exists_eq_append_iff.1 hex)
    · exact .path hp hbad
    · exact violates_of_faulty h
    · obtain ⟨⟨place, n⟩, hn, rfl⟩ := List.mem_map.1 h
      obtain ⟨hn, hbad⟩ := List.mem_filter.1 hn
      obtain ⟨r, hr, hto⟩ := mem_references_iff.1 hn
      exact .unknownSchema hr hto (by simpa [OrderedMap.contains] using hbad)
    · obtain ⟨f, hf, rfl⟩ := List.mem_map.1 h
      exact .shape (Info.mem_faults_iff.1 hf)
  · intro h
    cases h with
    | version h => exact .inl (.inl (.inl ⟨fun hp => h (exists_eq_append_iff.2 hp), rfl⟩))
    | path hp hbad => exact .inl (.inl (.inr (.inl ⟨_, hp, hbad, rfl⟩)))
    | duplicateId hs he => exact .inl (.inl (.inr (.inr (.inr ⟨_, .inr ⟨_, hs, he⟩, rfl⟩))))
    | noResponses ho hr =>
      refine .inl (.inl (.inr (.inr (faulty_of_serves ho ?_))))
      exact Operation.mem_violations_iff.2 (.inl ⟨hr, rfl⟩)
    | status ho hr hs hbad =>
      refine .inl (.inl (.inr (.inr (faulty_of_serves ho ?_))))
      exact Operation.mem_violations_iff.2 (.inr (.inl ⟨_, _, hr, hs, hbad, rfl⟩))
    | location ho hp hl =>
      refine .inl (.inl (.inr (.inr (faulty_of_serves ho ?_))))
      refine Operation.mem_violations_iff.2 (.inr (.inr ⟨_, hp, ?_⟩))
      exact Parameter.mem_violations_iff.2 (.inl ⟨hl, rfl⟩)
    | optionalPath ho hp hl hr =>
      refine .inl (.inl (.inr (.inr (faulty_of_serves ho ?_))))
      refine Operation.mem_violations_iff.2 (.inr (.inr ⟨_, hp, ?_⟩))
      exact Parameter.mem_violations_iff.2 (.inr ⟨hl, hr, rfl⟩)
    | @unknownSchema place r n hr hto hbad =>
      have hn : (place, n) ∈ d.references := mem_references_iff.2 ⟨r, hr, hto⟩
      have hunknown : (!d.schemas.contains n) = true := by simpa [OrderedMap.contains] using hbad
      exact .inl (.inr (List.mem_map.2 ⟨(place, n), List.mem_filter.2 ⟨hn, hunknown⟩, rfl⟩))
    | shape h => exact .inr (List.mem_map.2 ⟨_, Info.mem_faults_iff.2 h, rfl⟩)

end Document

end AnnotatedApi
