import AnnotatedApi.Proofs.Annotation.Sorting
import AnnotatedApi.Proofs.OrderedMap
import AnnotatedApi.Proofs.Text.Parts
import AnnotatedApi.Proofs.TypeExpr.Resolution
import AnnotatedApi.Route

/-! Which blocks describe routes. As for models, a block has all that a route needs or a first fault, in
the order: errors of tags, the event, the types of the body, of the parameters, of the responses. Main
statement: the conditions under which a block compiles, what the route then says, the error otherwise, and
that no body but the first one matters. -/
namespace AnnotatedApi

open Outcome Text

namespace Block

def body? (b : Block) : Option TypedTag := b.params.find? Route.isBody

def located (b : Block) : List TypedTag := b.params.filter (!Route.isBody ·)

/-- The description of the first tag with the title of an event, well formed or not. -/
def eventText (b : Block) : String := ((b.tags.find? (·.title = "event")).map (·.description)).getD ""

end Block

namespace ReturnsTag

def status (t : ReturnsTag) : String := String.ofList (trim (upTo '-' t.description.toList))

def text (t : ReturnsTag) : String :=
  String.ofList (trim (upTo '-' (behind '-' t.description.toList)))

end ReturnsTag

namespace Route

/-- No tag has errors, and the first event is this one. -/
def Announces (b : Block) (event : Event) : Prop :=
  b.errored? = none ∧ ∃ d, b.events.head? = some d ∧ Event.parse d = .ok event

structure Compilable (b : Block) : Prop where
  noErrors : ∀ t ∈ b.tags, t.errors = []
  event : ∃ d, b.events.head? = some d ∧ ∃ event, Event.parse d = .ok event
  body : ∀ p ∈ b.body?, p.type.HasSchema
  parameters : ∀ p ∈ b.located, p.type.HasSchema
  returns : ∀ t ∈ b.returns, t.type.HasSchema

/-- The first fault of a block, with its error. -/
inductive Fault (b : Block) : Error → Prop
  | tagErrors {t : Tag} : b.errored? = some t → Fault b (.tagErrors t.title t.errors)
  | noEvent : b.errored? = none → b.events = [] → Fault b (.malformedEvent b.eventText .noSeparators)
  | malformedEvent {d : String} {fault : EventFault} :
      b.errored? = none → b.events.head? = some d →
        Event.parse d = .error (.malformedEvent d fault) → Fault b (.malformedEvent d fault)
  | body {event : Event} {p : TypedTag} {part : TypeExpr} :
      Announces b event → b.body? = some p → p.type.schema = .error (.unsupportedType part) →
        Fault b (.unsupportedType part)
  | parameter {event : Event} {part : TypeExpr} :
      Announces b event → (∀ p ∈ b.body?, p.type.HasSchema) →
        FirstError (·.type.schema) b.located (.unsupportedType part) → Fault b (.unsupportedType part)
  | returns {event : Event} {part : TypeExpr} :
      Announces b event → (∀ p ∈ b.body?, p.type.HasSchema) →
        (∀ p ∈ b.located, p.type.HasSchema) →
          FirstError (·.type.schema) b.returns (.unsupportedType part) → Fault b (.unsupportedType part)

structure IsParameter (t : TypedTag) (p : Parameter) : Prop where
  required : p.required = true ↔ ∀ u, t.type ≠ .optional u
  description : p.description = t.description
  location : p.location = String.ofList (upTo '.' t.name.toList)
  name : p.name = String.ofList (upTo '.' (behind '.' t.name.toList))
  schema : t.type.schema = .ok p.schema

def IsContent (description : String) (type : TypeExpr) (c : Content) : Prop :=
  ∃ s, type.schema = .ok s ∧ c = .json description s

/-- What a route says of its block. A status that comes again keeps its place. -/
structure Describes (b : Block) (r : Route) : Prop where
  event : Announces b ⟨r.method, r.path, r.operation.operationId⟩
  description : r.operation.description = if b.description = "" then none else some b.description
  tags : r.operation.tags = b.tagLists.head?.map fun list =>
    (list.toList.splitOn ',').map fun t => String.ofList (trim t)
  noParameters : r.operation.parameters = none ↔ b.located = []
  parameters : ∀ ps ∈ r.operation.parameters, List.Forall₂ IsParameter b.located ps
  body : Option.Rel (fun p => IsContent p.description p.type) b.body? r.operation.requestBody
  noResponses : r.operation.responses = none ↔ b.returns = []
  statuses : ∀ rs ∈ r.operation.responses, rs.keys = (b.returns.map (·.status)).eraseDups
  responses : ∀ rs ∈ r.operation.responses, ∀ status t,
    b.returns.reverse.find? (·.status = status) = some t →
      ∃ c, rs.get? status = some c ∧ IsContent t.text t.type c

theorem parameter_eq (p : TypedTag) : parameter p = p.type.schema.map fun s => {
    required := !p.type.isOptional
    description := p.description
    location := (splitName p.name).1
    name := (splitName p.name).2
    schema := s } := by
  unfold parameter
  cases p.type.schema <;> rfl

theorem response_eq (t : ReturnsTag) :
    response t = t.type.schema.map fun s => (t.status, .json t.text s) := by
  obtain ⟨hstatus, htext⟩ := first_two_parts (f := fun s => String.ofList (trim s)) rfl '-'
    t.description.toList
  unfold response splitStatus
  dsimp only
  rw [hstatus, htext]
  cases t.type.schema <;> rfl

def bodyContent (p : TypedTag) : Except Error Content := p.type.schema.map (.json p.description)

theorem isParameter_of_parameter_eq_ok {t : TypedTag} {p : Parameter} (h : parameter t = .ok p) :
    IsParameter t p := by
  rw [parameter_eq, map_eq_ok] at h
  obtain ⟨s, hs, rfl⟩ := h
  obtain ⟨hlocation, hname⟩ := first_two_parts (f := String.ofList) rfl '.' t.name.toList
  refine ⟨?_, rfl, hlocation, hname, hs⟩
  cases t.type <;> simp [TypeExpr.isOptional]

def assemble (b : Block) (event : Event) (body : Option Content) (parameters : List Parameter)
    (responses : List (String × Content)) : Route where
  method := event.method
  path := event.path
  operation := {
    description := if b.description = "" then none else some b.description
    operationId := event.operationId
    tags := b.tagLists.head?.map fun list =>
      (list.toList.splitOn ',').map fun t => String.ofList (trim t)
    parameters := nonempty? parameters
    requestBody := body
    responses := (nonempty? responses).map .ofList }

variable {b : Block}

theorem compile_of_errored {t : Tag} (h : b.errored? = some t) :
    compile b = .error (.tagErrors t.title t.errors) := by
  rw [compile, Roles.ofTags_eq, h]
  rfl

theorem compile_of_no_errors (h : b.errored? = none) : compile b =
    (match b.events with
      | d :: _ => Event.parse d
      | [] => .error (.malformedEvent b.eventText .noSeparators)) >>= fun event =>
    b.body?.mapM bodyContent >>= fun body =>
    b.located.mapM parameter >>= fun parameters =>
      (b.returns.mapM response).map (assemble b event body parameters) := by
  rw [compile, Roles.ofTags_eq, h, Block.body?, ← List.head?_filter]
  rfl

variable {event : Event}

theorem compile_of_announces (h : Announces b event) : compile b =
    b.body?.mapM bodyContent >>= fun body =>
    b.located.mapM parameter >>= fun parameters =>
      (b.returns.mapM response).map (assemble b event body parameters) := by
  obtain ⟨herrors, d, hd, hparse⟩ := h
  obtain ⟨ds, hevents⟩ := List.head?_eq_some_iff.1 hd
  rw [compile_of_no_errors herrors, hevents]
  dsimp only
  rw [hparse]
  rfl

theorem exists_body (h : ∀ p ∈ b.body?, p.type.HasSchema) : ∃ body,
    b.body?.mapM bodyContent = .ok body ∧
      Option.Rel (fun p c => bodyContent p = .ok c) b.body? body := by
  apply exists_option_mapM_eq_ok
  intro p hp
  obtain ⟨s, hs⟩ := h p hp
  exact ⟨_, map_eq_ok.2 ⟨s, hs, rfl⟩⟩

theorem Fault.compile_eq {e : Error} (h : Fault b e) : compile b = .error e := by
  cases h with
  | tagErrors h => exact compile_of_errored h
  | noEvent h hevents =>
    rw [compile_of_no_errors h, hevents]
    rfl
  | malformedEvent h hd hparse =>
    obtain ⟨ds, hevents⟩ := List.head?_eq_some_iff.1 hd
    rw [compile_of_no_errors h, hevents]
    dsimp only
    rw [hparse]
    rfl
  | body h hp hschema =>
    rw [compile_of_announces h, hp, Option.mapM_some, bodyContent, hschema]
    rfl
  | parameter h hbody hp =>
    obtain ⟨body, hbody, -⟩ := exists_body hbody
    rw [compile_of_announces h, hbody]
    refine bind_eq_error.2 (.inr ⟨body, rfl, bind_eq_error.2 (.inl ?_)⟩)
    exact TypeExpr.mapM_eq_error_of_firstError parameter_eq hp
  | returns h hbody hp ht =>
    obtain ⟨body, hbody, -⟩ := exists_body hbody
    obtain ⟨parameters, hparameters⟩ := TypeExpr.exists_mapM_of_hasSchema parameter_eq hp
    rw [compile_of_announces h, hbody, hparameters]
    exact map_eq_error.2 (TypeExpr.mapM_eq_error_of_firstError response_eq ht)

theorem isContent_of_bodyContent {o : Option TypedTag} {body : Option Content}
    (h : Option.Rel (fun p c => bodyContent p = .ok c) o body) :
    Option.Rel (fun p => IsContent p.description p.type) o body := by
  cases h with
  | none => exact .none
  | some hc =>
    obtain ⟨s, hs, rfl⟩ := map_eq_ok.1 hc
    exact .some ⟨s, hs, rfl⟩

theorem describes_assemble (h : Announces b event) {body : Option Content}
    {parameters : List Parameter} {responses : List (String × Content)}
    (hbody : Option.Rel (fun p c => bodyContent p = .ok c) b.body? body)
    (hparameters : b.located.mapM parameter = .ok parameters)
    (hresponses : b.returns.mapM response = .ok responses) :
    Describes b (assemble b event body parameters responses) := by
  have hps : List.Forall₂ IsParameter b.located parameters :=
    (forall₂_of_mapM_eq_ok hparameters).imp fun t p => isParameter_of_parameter_eq_ok
  have hrs : List.Forall₂ (fun t entry => entry.1 = t.status ∧ IsContent t.text t.type entry.2)
      b.returns responses := by
    refine (forall₂_of_mapM_eq_ok hresponses).imp ?_
    intro t entry ht
    rw [response_eq, map_eq_ok] at ht
    obtain ⟨s, hs, rfl⟩ := ht
    exact ⟨rfl, s, hs, rfl⟩
  have hmap : ∀ rs ∈ (assemble b event body parameters responses).operation.responses,
      rs = .ofList responses := by
    intro rs hrs
    obtain ⟨entries, hentries, rfl⟩ := Option.map_eq_some_iff.1 hrs
    rw [eq_of_mem_nonempty? hentries]
  constructor
  case event => exact h
  case description => rfl
  case tags => rfl
  case noParameters =>
    refine nonempty?_eq_none_iff.trans ?_
    rw [← List.length_eq_zero_iff, ← hps.length_eq, List.length_eq_zero_iff]
  case parameters =>
    intro ps hmem
    rwa [eq_of_mem_nonempty? hmem]
  case body => exact isContent_of_bodyContent hbody
  case noResponses =>
    refine Option.map_eq_none_iff.trans (nonempty?_eq_none_iff.trans ?_)
    rw [← List.length_eq_zero_iff, ← hrs.length_eq, List.length_eq_zero_iff]
  case statuses =>
    intro rs hmem
    rw [hmap rs hmem]
    exact OrderedMap.keys_ofList_of_forall₂ hrs
  case responses =>
    intro rs hmem status t ht
    rw [hmap rs hmem]
    exact OrderedMap.get?_ofList_of_forall₂ hrs ht

theorem Compilable.exists_describes (h : Compilable b) : ∃ r, compile b = .ok r ∧ Describes b r := by
  obtain ⟨d, hd, event, hparse⟩ := h.event
  have hevent : Announces b event := ⟨Block.errored?_eq_none_iff.2 h.noErrors, d, hd, hparse⟩
  obtain ⟨body, hbody, hrel⟩ := exists_body h.body
  obtain ⟨parameters, hparameters⟩ := TypeExpr.exists_mapM_of_hasSchema parameter_eq h.parameters
  obtain ⟨responses, hresponses⟩ := TypeExpr.exists_mapM_of_hasSchema response_eq h.returns
  refine ⟨_, ?_, describes_assemble hevent hrel hparameters hresponses⟩
  rw [compile_of_announces hevent, hbody, hparameters, hresponses]
  rfl

end Route

/-- The only error of an event is that it is malformed. -/
theorem Event.exists_of_parse_eq_error {d : String} {e : Error} (h : parse d = .error e) :
    ∃ fault, e = .malformedEvent d fault := by
  unfold parse at h
  split at h
  · split at h
    · cases h
    · cases h
      exact ⟨_, rfl⟩
  · cases h
    exact ⟨_, rfl⟩

namespace Route

private theorem body_hasSchema_or_error (b : Block) : (∀ p ∈ b.body?, p.type.HasSchema) ∨
    ∃ p part, b.body? = some p ∧ p.type.schema = .error (.unsupportedType part) := by
  cases b.body? with
  | none => exact .inl nofun
  | some p =>
    rcases p.type.hasSchema_or_error with h | ⟨part, h⟩
    · refine .inl ?_
      rintro _ ⟨⟩
      exact h
    · exact .inr ⟨p, part, rfl, h⟩

theorem compilable_or_fault (b : Block) : Compilable b ∨ ∃ e, Fault b e := by
  cases herrors : b.errored? with
  | some t => exact .inr ⟨_, .tagErrors herrors⟩
  | none =>
    cases hd : b.events.head? with
    | none => exact .inr ⟨_, .noEvent herrors (List.head?_eq_none_iff.1 hd)⟩
    | some d =>
      cases hparse : Event.parse d with
      | error e =>
        obtain ⟨fault, rfl⟩ := Event.exists_of_parse_eq_error hparse
        exact .inr ⟨_, .malformedEvent herrors hd hparse⟩
      | ok event =>
        have hevent : Announces b event := ⟨herrors, d, hd, hparse⟩
        rcases body_hasSchema_or_error b with hbody | ⟨p, part, hp, hschema⟩
        · rcases TypeExpr.hasSchema_or_firstError TypedTag.type b.located with hp | ⟨part, hp⟩
          · rcases TypeExpr.hasSchema_or_firstError ReturnsTag.type b.returns with ht | ⟨part, ht⟩
            · exact .inl ⟨Block.errored?_eq_none_iff.1 herrors, ⟨d, hd, event, hparse⟩, hbody, hp, ht⟩
            · exact .inr ⟨_, .returns hevent hbody hp ht⟩
          · exact .inr ⟨_, .parameter hevent hbody hp⟩
        · exact .inr ⟨_, .body hevent hp hschema⟩

theorem describes_of_compile_eq_ok {b : Block} {r : Route} (h : compile b = .ok r) : Describes b r :=
  (settled_of_or Compilable.exists_describes (fun _ => Fault.compile_eq)
    (compilable_or_fault b)).2.1 r h

/-- What a route depends on. -/
theorem compile_congr {b b' : Block}
    (herrors : b'.errored?.map (fun t => (t.title, t.errors)) =
      b.errored?.map fun t => (t.title, t.errors))
    (hdescription : b'.description = b.description) (hevents : b'.events = b.events)
    (htext : b'.eventText = b.eventText) (htags : b'.tagLists = b.tagLists)
    (hbody : b'.body? = b.body?) (hlocated : b'.located = b.located)
    (hreturns : b'.returns = b.returns) : compile b' = compile b := by
  cases hb : b.errored? with
  | some t =>
    rw [hb, Option.map_some, Option.map_eq_some_iff] at herrors
    obtain ⟨t', hb', heq⟩ := herrors
    obtain ⟨htitle, hmessages⟩ := Prod.mk.inj heq
    rw [compile_of_errored hb, compile_of_errored hb', htitle, hmessages]
  | none =>
    rw [hb, Option.map_none, Option.map_eq_none_iff] at herrors
    have hassemble : assemble b' = assemble b := by
      unfold assemble
      rw [hdescription, htags]
    rw [compile_of_no_errors hb, compile_of_no_errors herrors, hevents, htext, hbody, hlocated, hreturns,
      hassemble]

end Route

def Tag.IsForBody (t : Tag) : Prop := ∃ p, t.param? = some p ∧ Route.isBody p

namespace Route

structure IsLaterBody (before : List Tag) (t : Tag) : Prop where
  forBody : t.IsForBody
  earlier : ∃ t' ∈ before, t'.IsForBody

section LaterBody

variable {before after : List Tag} {t : Tag} (type : Option TypeExpr) {description : String}

theorem IsLaterBody.title_eq (h : IsLaterBody before t) : t.title = "param" := by
  obtain ⟨p, hp, -⟩ := h.forBody
  exact (Tag.param?_eq_some_iff.1 hp).1

/-- With another type the tag is still for the body, or no parameter at all. -/
theorem IsLaterBody.filter_param? (h : IsLaterBody before t) :
    { t with type : Tag }.param?.toList.filter (!isBody ·) = [] := by
  obtain ⟨p, hp, hbody⟩ := h.forBody
  have hname := (Tag.param?_eq_some_iff.1 hp).2.1
  refine List.filter_eq_nil_iff.2 ?_
  intro p' hp'
  have hp' := Tag.param?_eq_some_iff.1 (Option.mem_toList.1 hp')
  have hsame : p'.name = p.name := Option.some.inj (hp'.2.1.symm.trans hname)
  simpa [isBody, hsame] using hbody

theorem IsLaterBody.located_eq (h : IsLaterBody before t) :
    Block.located ⟨description, before ++ { t with type } :: after⟩ =
      Block.located ⟨description, before ++ t :: after⟩ := by
  have hother := h.filter_param? type
  have hsame := h.filter_param? t.type
  simp only [Block.located, Block.params, List.filterMap_append, Block.filterMap_tags_cons,
    List.filter_append, hother, hsame]

theorem IsLaterBody.body?_eq (h : IsLaterBody before t) :
    Block.body? ⟨description, before ++ { t with type } :: after⟩ =
      Block.body? ⟨description, before ++ t :: after⟩ := by
  obtain ⟨t', ht', p, hp, hbody⟩ := h.earlier
  have hfirst : ((before.filterMap Tag.param?).find? isBody).isSome :=
    List.find?_isSome.2 ⟨p, List.mem_filterMap.2 ⟨t', ht', hp⟩, hbody⟩
  obtain ⟨q, hq⟩ := Option.isSome_iff_exists.1 hfirst
  simp only [Block.body?, Block.params, List.filterMap_append, List.find?_append, hq, Option.some_or]

/-- A view that does not look at the type does not see the change. -/
theorem filterMap_eq_of_view_eq {α : Type} {view : Tag → Option α}
    (h : view { t with type } = view t) :
    (before ++ { t with type } :: after).filterMap view = (before ++ t :: after).filterMap view := by
  simp only [List.filterMap_append, Block.filterMap_tags_cons, h]

/-- An error that is reported does not show the type either. -/
theorem errored?_map_eq :
    (Block.errored? ⟨description, before ++ { t with type } :: after⟩).map
        (fun t => (t.title, t.errors)) =
      (Block.errored? ⟨description, before ++ t :: after⟩).map fun t => (t.title, t.errors) := by
  unfold Block.errored?
  rw [List.find?_append, List.find?_append]
  cases before.find? (·.errors ≠ []) with
  | some u => rfl
  | none => by_cases ht : t.errors = [] <;> simp [ht]

/-- The type of a later body has no part in the route. -/
theorem IsLaterBody.compile_eq (h : IsLaterBody before t) :
    compile ⟨description, before ++ { t with type } :: after⟩ =
      compile ⟨description, before ++ t :: after⟩ := by
  have htitle := h.title_eq
  have hreturns : { t with type : Tag }.returns? = t.returns? := by
    simp [htitle]
  have htext : Block.eventText ⟨description, before ++ { t with type } :: after⟩ =
      Block.eventText ⟨description, before ++ t :: after⟩ := by
    simp [Block.eventText, htitle]
  exact compile_congr (errored?_map_eq type) rfl (filterMap_eq_of_view_eq type rfl) htext
    (filterMap_eq_of_view_eq type rfl) (h.body?_eq type) (h.located_eq type)
    (filterMap_eq_of_view_eq type hreturns)

end LaterBody

/-- A block compiles under exactly these conditions, its route describes it, otherwise the first fault is
reported, and the types of later bodies do not matter. -/
theorem compile_route_spec (b : Block) :
    ((∃ r, compile b = .ok r) ↔ Compilable b) ∧
      (∀ r, compile b = .ok r → Describes b r) ∧
      (∀ e, compile b = .error e ↔ Fault b e) ∧
      ∀ before t after type, b.tags = before ++ t :: after → IsLaterBody before t →
        compile { b with tags := before ++ { t with type } :: after } = compile b := by
  obtain ⟨hok, hdescribes, herror⟩ := settled_of_or Compilable.exists_describes
    (fun _ => Fault.compile_eq) (compilable_or_fault b)
  refine ⟨hok, hdescribes, herror, ?_⟩
  intro before t after type htags hlater
  obtain ⟨description, tags⟩ := b
  cases htags
  exact hlater.compile_eq type

def storeTags : List Tag :=
  [{ title := "event", description := "stores a pet" },
    { title := "event", description := "PUT: /pets - storePet" },
    { title := "param", name := some "query.dry", type := some (.optional (.name "boolean")) },
    { title := "param", name := some "body.pet", type := some (.name "Pet") }]

def otherBody : Tag := { title := "param", name := some "body.other", type := some .any }

def storeReturns : List Tag :=
  [{ title := "returns", description := "200 - old", type := some (.name "Pet") },
    { title := "returns", description := "404", type := some (.name "string") },
    { title := "returns", description := " 200- new - pet", type := some (.arrayOf (.name "Pet")) }]

def storeBlock : Block where
  tags := storeTags ++ otherBody :: storeReturns

/-- The body and a response have no schema. -/
def brokenBlock : Block where
  tags := [{ title := "returns", description := "200", type := some (.union [.any]) },
    { title := "param", name := some "body.pet", type := some (.nullable .any) },
    { title := "event", description := "PUT: /pets - storePet" }]

theorem compile_route_spec_store :
    (∃ r, compile storeBlock = .ok r ∧ Compilable storeBlock ∧ Describes storeBlock r ∧
      r.operation.responses.map (·.keys) = some ["200", "404"]) ∧
    compile { tags := storeTags ++ { otherBody with type := none } :: storeReturns } =
      compile storeBlock ∧
    compile brokenBlock = .error (.unsupportedType (.nullable .any)) := by
  have h : (compile storeBlock).toOption.map (fun r => r.operation.responses.map (·.keys)) =
      some (some ["200", "404"]) := by
    decide +kernel
  obtain ⟨r, hr, hkeys⟩ := Option.map_eq_some_iff.1 h
  have hr : compile storeBlock = .ok r := toOption_eq_some.1 hr
  have hlater : IsLaterBody storeTags otherBody :=
    ⟨⟨⟨"body.other", "", .any⟩, by rfl, by decide⟩,
      _, .tail _ (.tail _ (.tail _ (.head _))), ⟨"body.pet", "", .name "Pet"⟩, by rfl, by decide⟩
  have hevent : Announces brokenBlock ⟨.put, "/pets", "storePet"⟩ :=
    ⟨by decide, "PUT: /pets - storePet", by decide, toOption_eq_some.1 (by decide)⟩
  have hbroken : Fault brokenBlock (.unsupportedType (.nullable .any)) := .body hevent rfl rfl
  obtain ⟨hcompiles, hdescribes, -, hsame⟩ := compile_route_spec storeBlock
  exact ⟨⟨r, hr, hcompiles.1 ⟨r, hr⟩, hdescribes r hr, hkeys⟩,
    hsame storeTags otherBody storeReturns none rfl hlater,
    ((compile_route_spec brokenBlock).2.2.1 _).2 hbroken⟩

end Route

end AnnotatedApi
