import AnnotatedApi.Error
import AnnotatedApi.Proofs.Document.Violation

/-! What a valid document is. Main statement: the check hands back exactly the valid documents, and of
any other it reports a violation, with nothing violated that is checked before it. -/
namespace AnnotatedApi

structure Parameter.Valid (p : Parameter) : Prop where
  location : p.location ∈ ["query", "header", "path", "cookie"]
  required : p.location = "path" → p.required

structure Operation.Valid (o : Operation) : Prop where
  responses : ∃ rs, o.responses = some rs ∧ rs.keys ≠ [] ∧ ∀ status ∈ rs.keys, StatusKey status
  parameters : ∀ p ∈ o.parameterList, p.Valid

namespace Document

structure Valid (d : Document) : Prop where
  version : ∃ rest, d.openapi = "3.0." ++ rest
  paths : ∀ path ∈ d.paths.keys, ∃ rest, path = "/" ++ rest
  operationIds : ∀ path m o path' m' o', d.Serves path m o → d.Serves path' m' o' →
    o.operationId = o'.operationId → path = path' ∧ m = m'
  operations : ∀ path m o, d.Serves path m o → o.Valid
  references : ∀ place r n, d.Refers place r → Schema.LeadsTo r n → n ∈ d.schemas.keys
  info : d.info.Valid

variable {d : Document} {v : Violation}

theorem pairwise_place_ne (d : Document) :
    d.operations.Pairwise fun x y => Located.place x ≠ Located.place y := by
  unfold operations
  rw [List.pairwise_flatMap]
  constructor
  · rintro ⟨path, item⟩ _
    rw [List.pairwise_map, PathItem.operations, List.pairwise_filterMap]
    have hall : Method.all.Nodup := by decide
    refine hall.imp ?_
    intro m m' hne x hx y hy he
    obtain ⟨o, _, rfl⟩ := Option.map_eq_some_iff.1 hx
    obtain ⟨o', _, rfl⟩ := Option.map_eq_some_iff.1 hy
    cases he
    exact hne rfl
  · have hkeys := d.paths.nodup
    unfold Entries.keys at hkeys
    refine (List.pairwise_map.1 hkeys).imp ?_
    intro e e' hne x hx y hy he
    obtain ⟨_, _, rfl⟩ := List.mem_map.1 hx
    obtain ⟨_, _, rfl⟩ := List.mem_map.1 hy
    exact hne (Place.operation.inj he).2

theorem Valid.of_forall_not_violates (h : ∀ v, ¬d.Violates v) : d.Valid where
  version := by_contra fun hv => h _ (.version hv)
  paths _ hp := by_contra fun hbad => h _ (.path hp hbad)
  operationIds path m o path' m' o' ho ho' hid := by
    by_contra hne
    have hpair := pair_sublist_or (mem_operations_iff.2 ho) (mem_operations_iff.2 ho')
      (by rintro he; cases he; exact hne ⟨rfl, rfl⟩)
    rcases hpair with hs | hs
    · exact h _ (.duplicateId hs hid)
    · exact h _ (.duplicateId hs hid.symm)
  operations path m o ho := by
    constructor
    · cases hr : o.responses with
      | none => exact (h _ (.noResponses ho (by simp [hr]))).elim
      | some rs =>
        refine ⟨rs, rfl, ?_, ?_⟩
        · intro hk
          refine h _ (.noResponses ho ?_)
          intro rs' hr'
          cases hr.symm.trans hr'
          exact hk
        · exact fun s hs => by_contra fun hbad => h _ (.status ho hr hs hbad)
    · intro p hp
      refine ⟨by_contra fun hl => h _ (.location ho hp hl), fun hl => by_contra fun hr => ?_⟩
      exact h _ (.optionalPath ho hp hl (eq_false_of_ne_true hr))
  references place r n hr hto := by_contra fun hbad => h _ (.unknownSchema hr hto hbad)
  info := Info.valid_iff_not_misfit.2 fun _ hf => h _ (.shape hf)

theorem Valid.not_violates (h : d.Valid) : ¬d.Violates v := by
  intro hv
  cases hv with
  | version hbad => exact hbad h.version
  | path hp hbad => exact hbad (h.paths _ hp)
  | @duplicateId path path' m m' o o' hs hid =>
    obtain ⟨hx, hy⟩ := mem_of_pair_sublist hs
    have hsame := h.operationIds _ _ _ _ _ _ (mem_operations_iff.1 hx) (mem_operations_iff.1 hy) hid
    obtain ⟨rfl, rfl⟩ := hsame
    exact List.pairwise_iff_forall_sublist.1 d.pairwise_place_ne hs rfl
  | noResponses ho hbad =>
    obtain ⟨rs, hr, hne, _⟩ := (h.operations _ _ _ ho).responses
    exact hne (hbad rs hr)
  | status ho hr hs hbad =>
    obtain ⟨_, hr', _, hall⟩ := (h.operations _ _ _ ho).responses
    cases hr.symm.trans hr'
    exact hbad (hall _ hs)
  | location ho hp hbad => exact hbad ((h.operations _ _ _ ho).parameters _ hp).location
  | optionalPath ho hp hl hr =>
    have hreq := ((h.operations _ _ _ ho).parameters _ hp).required hl
    exact Bool.false_ne_true (hr.symm.trans hreq)
  | unknownSchema hr hto hbad => exact hbad (h.references _ _ _ hr hto)
  | shape hf => exact Info.valid_iff_not_misfit.1 h.info _ hf

end Document

-- The order of checking: the version, the paths one by one, the references, the info.

/-- How many of the checks come before the one that finds a violation. -/
def Violation.rank (paths : List String) : Violation → Nat
  | version _ => 0
  | path p => paths.idxOf p + 1
  | duplicateId _ place | noResponses place | status place _ | location _ place _
  | optionalPath _ place =>
    match place with
    | .operation _ p => paths.idxOf p + 1
    | .schema _ => paths.length + 1
  | unknownSchema _ _ => paths.length + 1
  | shape _ => paths.length + 2

theorem Operation.rank_of_mem_violations {o : Operation} {m : Method} {path : String} {v : Violation}
    (h : v ∈ o.violations (.operation m path)) (paths : List String) :
    v.rank paths = paths.idxOf path + 1 := by
  rcases mem_violations_iff.1 h with ⟨_, rfl⟩ | ⟨_, _, _, _, _, rfl⟩ | ⟨p, _, h⟩
  · rfl
  · rfl
  · rcases Parameter.mem_violations_iff.1 h with ⟨_, rfl⟩ | ⟨_, _, rfl⟩ <;> rfl

theorem rank_of_mem_operationViolations {path : String} {seen : List String}
    {ops : List (Method × Operation)} {v : Violation} (h : v ∈ operationViolations path seen ops)
    (paths : List String) : v.rank paths = paths.idxOf path + 1 := by
  rcases mem_operationViolations_iff.1 h with ⟨x, hx, hv⟩ | ⟨x, hx, rfl⟩
  · obtain ⟨_, _, rfl⟩ := List.mem_map.1 hx
    exact Operation.rank_of_mem_violations hv paths
  · have hx : x ∈ ops.map (path, ·) := by
      rcases hx with ⟨hx, _⟩ | ⟨_, hs, _⟩
      · exact hx
      · exact (mem_of_pair_sublist hs).2
    obtain ⟨_, _, rfl⟩ := List.mem_map.1 hx
    rfl

theorem pairwise_of_rank_eq {l : List Violation} {paths : List String} {n : Nat}
    (h : ∀ v ∈ l, v.rank paths = n) : l.Pairwise fun v w => v.rank paths ≤ w.rank paths := by
  rw [List.pairwise_iff_forall_sublist]
  intro v w hs
  obtain ⟨hv, hw⟩ := mem_of_pair_sublist hs
  exact Nat.le_of_eq ((h v hv).trans (h w hw).symm)

theorem exists_rank_of_mem_pathViolations {seen : List String} {entries : List (String × PathItem)}
    {v : Violation} (h : v ∈ pathViolations seen entries) :
    ∃ p ∈ Entries.keys entries, ∀ paths, v.rank paths = paths.idxOf p + 1 := by
  induction entries generalizing seen with
  | nil => exact absurd h List.not_mem_nil
  | cons e entries ih =>
    obtain ⟨path, item⟩ := e
    rw [pathViolations, List.mem_append, List.mem_append, List.mem_ite_nil_left,
      List.mem_singleton] at h
    rcases h with (⟨_, rfl⟩ | h) | h
    · exact ⟨path, List.mem_cons_self, fun _ => rfl⟩
    · exact ⟨path, List.mem_cons_self, rank_of_mem_operationViolations h⟩
    · obtain ⟨p, hp, hrank⟩ := ih h
      exact ⟨p, List.mem_cons_of_mem _ hp, hrank⟩

private theorem pairwise_pathViolations {seen : List String} {entries : List (String × PathItem)}
    (hkeys : (Entries.keys entries).Nodup) : (pathViolations seen entries).Pairwise
      fun v w => v.rank (Entries.keys entries) ≤ w.rank (Entries.keys entries) := by
  induction entries generalizing seen with
  | nil => exact List.Pairwise.nil
  | cons e entries ih =>
    obtain ⟨path, item⟩ := e
    obtain ⟨hpath, hkeys⟩ := List.nodup_cons.1 hkeys
    -- All that is found on the first path has rank 1, and the ranks of the rest move up by one.
    have hhead : ∀ v ∈ (if path.toList.head? = some '/' then [] else [Violation.path path]) ++
        operationViolations path seen item.operations,
        v.rank (Entries.keys ((path, item) :: entries)) = 1 := by
      intro v hv
      have hi : (Entries.keys ((path, item) :: entries)).idxOf path = 0 := List.idxOf_cons_self
      rw [List.mem_append, List.mem_ite_nil_left, List.mem_singleton] at hv
      rcases hv with ⟨_, rfl⟩ | hv
      · rw [Violation.rank, hi]
      · rw [rank_of_mem_operationViolations hv, hi]
    have htail : ∀ {seen v}, v ∈ pathViolations seen entries →
        v.rank (Entries.keys ((path, item) :: entries)) = v.rank (Entries.keys entries) + 1 := by
      intro seen v hv
      obtain ⟨p, hp, hrank⟩ := exists_rank_of_mem_pathViolations hv
      have hne : path ≠ p := by
        rintro rfl
        exact hpath hp
      rw [hrank, hrank]
      exact congrArg (· + 1) (List.idxOf_cons_ne _ hne)
    rw [pathViolations, List.pairwise_append]
    refine ⟨pairwise_of_rank_eq hhead, ?_, ?_⟩
    · refine (ih hkeys).imp_of_mem ?_
      intro v w hv hw hle
      rw [htail hv, htail hw]
      omega
    · intro v hv w hw
      rw [hhead v hv, htail hw]
      omega

namespace Document

theorem pairwise_violations (d : Document) :
    d.violations.Pairwise fun v w => v.rank d.paths.keys ≤ w.rank d.paths.keys := by
  have hversion : ∀ v ∈ (if ['3', '.', '0', '.'] <+: d.openapi.toList then []
      else [Violation.version d.openapi]), v.rank d.paths.keys = 0 := by
    intro v hv
    rw [List.mem_ite_nil_left, List.mem_singleton] at hv
    rw [hv.2, Violation.rank]
  have hpaths : ∀ v ∈ pathViolations [] d.paths.entries,
      v.rank d.paths.keys ≤ d.paths.keys.length := by
    intro v hv
    obtain ⟨p, hp, hrank⟩ := exists_rank_of_mem_pathViolations hv
    rw [hrank]
    exact List.idxOf_lt_length_iff.2 hp
  have hreferences : ∀ v ∈ (d.references.filter fun r => !d.schemas.contains r.2).map
      (fun r => Violation.unknownSchema r.1 r.2), v.rank d.paths.keys = d.paths.keys.length + 1 := by
    intro v hv
    obtain ⟨_, _, rfl⟩ := List.mem_map.1 hv
    rfl
  have hinfo : ∀ v ∈ d.info.faults.map Violation.shape,
      v.rank d.paths.keys = d.paths.keys.length + 2 := by
    intro v hv
    obtain ⟨_, _, rfl⟩ := List.mem_map.1 hv
    rfl
  unfold violations
  rw [List.pairwise_append, List.pairwise_append, List.pairwise_append]
  refine ⟨⟨⟨pairwise_of_rank_eq hversion, pairwise_pathViolations d.paths.nodup, ?_⟩,
    pairwise_of_rank_eq hreferences, ?_⟩, pairwise_of_rank_eq hinfo, ?_⟩
  · intro v hv w _
    rw [hversion v hv]
    exact Nat.zero_le _
  · intro v hv w hw
    rw [hreferences w hw]
    rcases List.mem_append.1 hv with hv | hv
    · rw [hversion v hv]
      omega
    · exact Nat.le_succ_of_le (hpaths v hv)
  · intro v hv w hw
    rw [hinfo w hw]
    rw [List.mem_append, List.mem_append] at hv
    rcases hv with (hv | hv) | hv
    · rw [hversion v hv]
      omega
    · exact Nat.le_add_right_of_le (hpaths v hv)
    · rw [hreferences v hv]
      omega

theorem valid_iff_violations_eq_nil {d : Document} : d.Valid ↔ d.violations = [] := by
  constructor
  · intro h
    exact List.eq_nil_iff_forall_not_mem.2 fun v hv => h.not_violates (mem_violations_iff.1 hv)
  · intro h
    refine .of_forall_not_violates fun v hv => ?_
    rw [← mem_violations_iff, h] at hv
    exact List.not_mem_nil hv

theorem validate_eq_ok_iff {d d' : Document} : d.validate = .ok d' ↔ d.Valid ∧ d' = d := by
  unfold validate
  rw [valid_iff_violations_eq_nil]
  cases d.violations with
  | nil => simp [eq_comm]
  | cons v vs => simp

theorem first_of_validate_eq_error {d : Document} {v : Violation} (h : d.validate = .error v) :
    d.Violates v ∧ ∀ w, d.Violates w → v.rank d.paths.keys ≤ w.rank d.paths.keys := by
  have hsorted := d.pairwise_violations
  have hmem : ∀ {w}, d.Violates w ↔ w ∈ d.violations := mem_violations_iff.symm
  unfold validate at h
  split at h
  next => cases h
  next v' vs hvs =>
    cases h
    rw [hvs] at hsorted hmem
    refine ⟨hmem.2 List.mem_cons_self, ?_⟩
    intro w hw
    rcases List.mem_cons.1 (hmem.1 hw) with rfl | hw
    · exact Nat.le_refl _
    · exact (List.pairwise_cons.1 hsorted).1 w hw

end Document

def Tells (text part : String) : Prop := part.toList <:+: text.toList

namespace Tells

variable {s t : String}

instance : Decidable (Tells s t) := inferInstanceAs (Decidable (_ <:+: _))

theorem refl (s : String) : Tells s s := List.infix_rfl

theorem append_left (h : Tells s t) (u : String) : Tells (s ++ u) t := by
  unfold Tells
  rw [String.toList_append]
  exact List.IsInfix.trans h (List.prefix_append _ _).isInfix

theorem append_right (h : Tells s t) (u : String) : Tells (u ++ s) t := by
  unfold Tells
  rw [String.toList_append]
  exact List.IsInfix.trans h (List.suffix_append _ _).isInfix

end Tells

def Place.names : Place → List String
  | operation method path => [method.display, path]
  | schema name => [name]

theorem Place.tells_display (place : Place) : ∀ s ∈ place.names, Tells place.display s := by
  intro s hs
  cases place with
  | operation method path =>
    rcases List.mem_cons.1 hs with rfl | hs
    · exact .append_left (.append_left (.refl _) _) _
    · cases List.mem_singleton.1 hs
      exact .append_right (.refl _) _
  | schema name =>
    cases List.mem_singleton.1 hs
    exact .append_right (.refl _) _

namespace Violation

def rule : Violation → String
  | version _ => "unsupported openapi version"
  | path _ => "must start with '/'"
  | duplicateId _ _ => "duplicate operationId"
  | noResponses _ => "has no responses"
  | status _ _ => "has invalid response status"
  | location _ _ _ => "has unknown location"
  | optionalPath _ _ => "must be required"
  | unknownSchema _ _ => "references unknown schema"
  | shape _ => "not a valid OpenAPI 3.0 document"

/-- The parts of the document that break the rule, and of a wrong shape what is wrong with it. -/
def names : Violation → List String
  | version openapi => [openapi]
  | path p => [p]
  | duplicateId id place => id :: place.names
  | noResponses place => place.names
  | status place s => s :: place.names
  | location p place l => p :: l :: place.names
  | optionalPath p place => p :: place.names
  | unknownSchema place target => target :: place.names
  | shape (.notText found) => [found, "expected a string"]
  | shape .noName => ["missing field `name`"]

theorem tells_rule (v : Violation) : Tells v.message v.rule := by
  cases v <;> dsimp only [rule]
  case version => exact .append_left (.append_left (by decide +kernel) _) _
  case path => exact .append_right (by decide +kernel) _
  case duplicateId => exact .append_left (.append_left (.append_left (by decide +kernel) _) _) _
  case noResponses => exact .append_right (by decide +kernel) _
  case optionalPath => exact .append_right (by decide +kernel) _
  case shape => exact .append_left (by decide +kernel) _
  all_goals exact .append_left (.append_left (.append_right (by decide +kernel) _) _) _

theorem tells_names (v : Violation) : ∀ s ∈ v.names, Tells v.message s := by
  intro s hs
  cases v with
  | version | path =>
    cases List.mem_singleton.1 hs
    exact .append_left (.append_right (.refl _) _) _
  | duplicateId id place =>
    rcases List.mem_cons.1 hs with rfl | hs
    · exact .append_left (.append_left (.append_right (.refl _) _) _) _
    · exact .append_right (place.tells_display s hs) _
  | noResponses place => exact .append_left (place.tells_display s hs) _
  | status place | unknownSchema place =>
    rcases List.mem_cons.1 hs with rfl | hs
    · exact .append_left (.append_right (.refl _) _) _
    · exact .append_left (.append_left (.append_left (place.tells_display s hs) _) _) _
  | location p place l =>
    rcases List.mem_cons.1 hs with rfl | hs
    · refine .append_left (.append_left (.append_left (.append_left ?_ _) _) _) _
      exact .append_left (.append_right (.refl _) _) _
    · rcases List.mem_cons.1 hs with rfl | hs
      · exact .append_left (.append_right (.refl _) _) _
      · refine .append_left (.append_left (.append_left ?_ _) _) _
        exact .append_right (place.tells_display s hs) _
  | optionalPath p place =>
    rcases List.mem_cons.1 hs with rfl | hs
    · exact .append_left (.append_left (.append_left (.append_right (.refl _) _) _) _) _
    · exact .append_left (.append_right (place.tells_display s hs) _) _
  | shape fault =>
    refine .append_right ?_ _
    cases fault with
    | notText found =>
      rcases List.mem_cons.1 hs with rfl | hs
      · exact .append_left (.append_right (.refl _) _) _
      · cases List.mem_singleton.1 hs
        exact .append_right (by decide +kernel) _
    | noName =>
      cases List.mem_singleton.1 hs
      exact .refl _

end Violation

namespace Document

/-- A document is handed back when it is valid. Otherwise the first of its violations is reported, by a
message that tells which rule is broken, and where. -/
theorem validate_eq (d : Document) :
    (d.Valid ∧ d.validate = .ok d) ∨
      (¬d.Valid ∧ ∃ v, d.validate = .error v ∧ d.Violates v ∧
        (∀ w, d.Violates w → v.rank d.paths.keys ≤ w.rank d.paths.keys) ∧
        ∀ s ∈ v.rule :: v.names, Tells (Error.invalid v).message s) := by
  cases h : d.validate with
  | ok d' =>
    obtain ⟨hvalid, rfl⟩ := validate_eq_ok_iff.1 h
    exact .inl ⟨hvalid, rfl⟩
  | error v =>
    obtain ⟨hviolates, hfirst⟩ := first_of_validate_eq_error h
    refine .inr ⟨fun hvalid => hvalid.not_violates hviolates, v, rfl, hviolates, hfirst, ?_⟩
    have hmessage := List.forall_mem_cons.2 ⟨v.tells_rule, v.tells_names⟩
    exact fun s hs => (hmessage s hs).append_right _

end Document

end AnnotatedApi
