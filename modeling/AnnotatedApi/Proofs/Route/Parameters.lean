import AnnotatedApi.Proofs.Route.Compilation

/-! The names of parameters. A dotted name gives a parameter its location and its name, and what stands
behind a second point is lost. Main statement: the parameters of a route keep their dotted names exactly
where each of these has one point, and different names give different parameters exactly where no two of
them agree up to the second point. -/
namespace AnnotatedApi

open Text

namespace Parameter

def identity (p : Parameter) : String × String := (p.location, p.name)

def dotted (p : Parameter) : String := p.location ++ "." ++ p.name

end Parameter

namespace Route

variable {t t' : TypedTag} {p p' : Parameter} {b : Block} {r : Route}

theorem IsParameter.toList_dotted (h : IsParameter t p) :
    p.dotted.toList = upToSecond '.' t.name.toList := by
  unfold Parameter.dotted upToSecond
  rw [h.location, h.name]
  simp

theorem IsParameter.dotted_eq_iff (h : IsParameter t p) (hpoint : '.' ∈ t.name.toList) :
    p.dotted = t.name ↔ t.name.toList.count '.' = 1 := by
  rw [← String.toList_inj, h.toList_dotted, upToSecond_eq_self_iff hpoint]

theorem IsParameter.identity_eq_iff (h : IsParameter t p) (h' : IsParameter t' p') :
    p.identity = p'.identity ↔ upToSecond '.' t.name.toList = upToSecond '.' t'.name.toList := by
  unfold Parameter.identity
  rw [upToSecond_eq_iff, Prod.mk.injEq, h.location, h.name, h'.location, h'.name, String.ofList_inj,
    String.ofList_inj]

theorem IsParameter.exists_name_eq (h : IsParameter t p) (hpoint : '.' ∈ t.name.toList) :
    ∃ lost, t.name.toList = p.dotted.toList ++ lost ∧ (lost = [] ∨ lost.head? = some '.') := by
  rw [h.toList_dotted]
  exact exists_eq_upToSecond_append hpoint

private theorem mem_of_mem_located (h : t ∈ b.located) : '.' ∈ t.name.toList := by
  obtain ⟨hparam, -⟩ := List.mem_filter.1 h
  obtain ⟨tag, -, htag⟩ := List.mem_filterMap.1 hparam
  exact (Tag.param?_eq_some_iff.1 htag).2.2.1

def Declares (b : Block) (r : Route) (t : TypedTag) (p : Parameter) : Prop :=
  (t, p) ∈ b.located.zip (r.operation.parameters.getD [])

theorem Describes.forall₂_parameters (h : Describes b r) :
    List.Forall₂ IsParameter b.located (r.operation.parameters.getD []) := by
  cases hps : r.operation.parameters with
  | none =>
    rw [h.noParameters.1 hps]
    exact .nil
  | some ps => exact h.parameters ps hps

theorem Declares.mem_located (h : Declares b r t p) : t ∈ b.located := (List.of_mem_zip h).1

theorem Declares.isParameter (hr : Describes b r) (h : Declares b r t p) : IsParameter t p :=
  (List.forall₂_iff_zip.1 hr.forall₂_parameters).2 h

theorem exists_declares (hr : Describes b r) (h : t ∈ b.located) : ∃ p, Declares b r t p := by
  have hlength := hr.forall₂_parameters.length_eq
  rw [← List.map_fst_zip hlength.le] at h
  obtain ⟨⟨_, p⟩, hp, rfl⟩ := List.mem_map.1 h
  exact ⟨p, hp⟩

/-- What stands behind the second point of a dotted name is lost. So the parameters of a route have the
dotted names of their tags if and only if each of these has one point, and parameters of different names
differ if and only if no two of these names agree up to their second points. -/
theorem parameters_keep_names_iff (h : compile b = .ok r) :
    (∀ t ∈ b.located, ∃ p, Declares b r t p) ∧
    (∀ t p, Declares b r t p →
      ∃ lost, t.name.toList = p.dotted.toList ++ lost ∧ (lost = [] ∨ lost.head? = some '.')) ∧
    ((∀ t p, Declares b r t p → p.dotted = t.name) ↔
      ∀ t ∈ b.located, t.name.toList.count '.' = 1) ∧
    ((∀ t p t' p', Declares b r t p → Declares b r t' p' → t.name ≠ t'.name →
        p.identity ≠ p'.identity) ↔
      ∀ t ∈ b.located, ∀ t' ∈ b.located,
        upToSecond '.' t.name.toList = upToSecond '.' t'.name.toList → t.name = t'.name) := by
  have hr := describes_of_compile_eq_ok h
  refine ⟨fun t => exists_declares hr, ?_, ⟨?_, ?_⟩, ⟨?_, ?_⟩⟩
  · intro t p hp
    exact (hp.isParameter hr).exists_name_eq (mem_of_mem_located hp.mem_located)
  · intro hkept t ht
    obtain ⟨p, hp⟩ := exists_declares hr ht
    exact ((hp.isParameter hr).dotted_eq_iff (mem_of_mem_located ht)).1 (hkept t p hp)
  · intro hone t p hp
    have ht := hp.mem_located
    exact ((hp.isParameter hr).dotted_eq_iff (mem_of_mem_located ht)).2 (hone t ht)
  · intro hdiffer t ht t' ht' hsame
    obtain ⟨p, hp⟩ := exists_declares hr ht
    obtain ⟨p', hp'⟩ := exists_declares hr ht'
    by_contra hname
    exact hdiffer t p t' p' hp hp' hname
      (((hp.isParameter hr).identity_eq_iff (hp'.isParameter hr)).2 hsame)
  · intro hsame t p t' p' hp hp' hname hidentity
    have hagree := ((hp.isParameter hr).identity_eq_iff (hp'.isParameter hr)).1 hidentity
    exact hname (hsame t hp.mem_located t' hp'.mem_located hagree)

def paramTag (name : String) : Tag :=
  { title := "param", name := some name, type := some (.name "string") }

/-- One name at two locations, and a body, whose name may have more points. -/
def orderBlock : Block where
  tags := [{ title := "event", description := "PUT: /orders - putOrder" }, paramTag "query.id",
    paramTag "body.order.items", paramTag "header.id"]

theorem parameters_keep_names_order : ∃ r, compile orderBlock = .ok r ∧
    (∃ p, Declares orderBlock r ⟨"header.id", "", .name "string"⟩ p ∧ p.dotted = "header.id") ∧
    ∀ t p t' p', Declares orderBlock r t p → Declares orderBlock r t' p' → t.name ≠ t'.name →
      p.identity ≠ p'.identity := by
  have hcompiles : (compile orderBlock).toOption.isSome := by decide +kernel
  obtain ⟨r, hr⟩ := Option.isSome_iff_exists.1 hcompiles
  have hr : compile orderBlock = .ok r := Outcome.toOption_eq_some.1 hr
  obtain ⟨hdeclares, -, hkept, hdiffer⟩ := parameters_keep_names_iff hr
  obtain ⟨p, hp⟩ := hdeclares ⟨"header.id", "", .name "string"⟩ (.tail _ (.head _))
  exact ⟨r, hr, ⟨p, hp, hkept.2 (by decide +kernel) _ p hp⟩, hdiffer.2 (by decide +kernel)⟩

/-- Names that differ behind their second points. -/
def filterBlock : Block where
  tags := [{ title := "event", description := "GET: /pets - listPets" }, paramTag "query.filter.name",
    paramTag "query.filter.age"]

theorem parameters_lose_names_filter : ∃ r, compile filterBlock = .ok r ∧
    filterBlock.located.map (·.name) = ["query.filter.name", "query.filter.age"] ∧
    (r.operation.parameters.getD []).map (·.identity) = [("query", "filter"), ("query", "filter")] := by
  have h : (compile filterBlock).toOption.map
      (fun r => (r.operation.parameters.getD []).map (·.identity)) =
        some [("query", "filter"), ("query", "filter")] := by
    decide +kernel
  obtain ⟨r, hr, hidentity⟩ := Option.map_eq_some_iff.1 h
  exact ⟨r, Outcome.toOption_eq_some.1 hr, by decide +kernel, hidentity⟩

end Route

end AnnotatedApi
