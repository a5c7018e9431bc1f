import AnnotatedApi.Proofs.Annotation.Sorting

/-! The headings under which the tags of a block are sorted, each with the rule by which it takes a tag.
Main statement: one pass over the tags gives what a separate selection for each heading would give, and
tags that no heading takes can be added and left out anywhere. -/
namespace AnnotatedApi

inductive Heading where
  | event
  | tags
  | param
  | returns
  | typedef
  | property
  | untypedProperty
deriving DecidableEq

namespace Heading

def all : List Heading := [event, tags, param, returns, typedef, property, untypedProperty]

theorem mem_all (h : Heading) : h ∈ all := by
  cases h <;> decide

end Heading

namespace Tag

def IsNamed (t : Tag) : Prop := t.name.any (· ≠ "")

def IsDotted (t : Tag) : Prop := t.name.any ('.' ∈ ·.toList)

instance (t : Tag) : Decidable t.IsNamed := inferInstanceAs (Decidable (_ = true))

instance (t : Tag) : Decidable t.IsDotted := inferInstanceAs (Decidable (_ = true))

/-- The rule by which a heading takes a tag. -/
def Under (t : Tag) : Heading → Prop
  | .event => t.title = "event" ∧ ':' ∈ t.description.toList ∧ '-' ∈ t.description.toList
  | .tags => t.title = "tags" ∧ t.description ≠ ""
  | .param => t.title = "param" ∧ t.IsDotted ∧ t.type.isSome
  | .returns => t.title = "returns" ∧ t.description ≠ "" ∧ t.type.isSome
  | .typedef => t.title = "typedef" ∧ t.IsNamed
  | .property => t.title = "property" ∧ t.IsNamed ∧ t.type.isSome
  | .untypedProperty => t.title = "property" ∧ t.IsNamed ∧ t.type.isNone

instance (t : Tag) (h : Heading) : Decidable (t.Under h) :=
  match h with
  | .event => inferInstanceAs (Decidable (_ ∧ _ ∧ _))
  | .tags => inferInstanceAs (Decidable (_ ∧ _))
  | .param => inferInstanceAs (Decidable (_ ∧ _ ∧ _))
  | .returns => inferInstanceAs (Decidable (_ ∧ _ ∧ _))
  | .typedef => inferInstanceAs (Decidable (_ ∧ _))
  | .property => inferInstanceAs (Decidable (_ ∧ _ ∧ _))
  | .untypedProperty => inferInstanceAs (Decidable (_ ∧ _ ∧ _))

/-- A well-formed tag that no heading takes. -/
structure Idle (t : Tag) : Prop where
  wellFormed : t.errors = []
  untaken : ∀ h, ¬t.Under h

instance (t : Tag) : Decidable t.Idle :=
  decidable_of_iff (t.errors = [] ∧ ∀ h ∈ Heading.all, ¬t.Under h)
    ⟨fun ⟨he, hu⟩ => ⟨he, fun h => hu h h.mem_all⟩, fun ⟨he, hu⟩ => ⟨he, fun h _ => hu h⟩⟩

inductive Inert (t : Tag) : Prop where
  | unknownTitle (h : t.title ∉ ["event", "tags", "param", "returns", "typedef", "property"])
  | noSeparators (h : t.title = "event")
      (missing : ':' ∉ t.description.toList ∨ '-' ∉ t.description.toList)
  | undescribed (h : t.title ∈ ["tags", "returns"]) (missing : t.description = "")
  | untyped (h : t.title ∈ ["param", "returns"]) (missing : t.type = none)
  | undotted (h : t.title = "param") (missing : ¬t.IsDotted)
  | unnamed (h : t.title ∈ ["param", "typedef", "property"]) (missing : ∀ n ∈ t.name, n = "")

variable {t : Tag}

theorem isNamed_of_isDotted (h : t.IsDotted) : t.IsNamed := by
  unfold IsDotted at h
  unfold IsNamed
  cases hn : t.name with
  | none => simp [hn] at h
  | some n =>
    rw [hn] at h
    have hne : n ≠ "" := by
      rintro rfl
      simp at h
    simpa using hne

theorem properName?_eq_some_iff {n : String} : t.properName? = some n ↔ t.name = some n ∧ n ≠ "" := by
  simp [properName?, Option.filter_eq_some_iff]

theorem isNamed_iff : t.IsNamed ↔ ∃ n, t.properName? = some n := by
  simp only [properName?_eq_some_iff, IsNamed]
  cases t.name <;> simp

theorem isDotted_iff : t.IsDotted ↔ ∃ n, t.properName? = some n ∧ '.' ∈ n.toList := by
  constructor
  · intro h
    obtain ⟨n, hn⟩ := isNamed_iff.1 (isNamed_of_isDotted h)
    refine ⟨n, hn, ?_⟩
    simpa [IsDotted, (properName?_eq_some_iff.1 hn).1] using h
  · rintro ⟨n, hn, hdot⟩
    simpa [IsDotted, (properName?_eq_some_iff.1 hn).1] using hdot

theorem not_isNamed_iff : ¬t.IsNamed ↔ ∀ n ∈ t.name, n = "" := by
  unfold IsNamed
  cases t.name <;> simp

theorem Under.unique {h h' : Heading} (hu : t.Under h) (hu' : t.Under h') : h = h' := by
  cases h <;> cases h' <;> simp_all [Under]

theorem Inert.not_under (hi : t.Inert) (h : Heading) : ¬t.Under h := by
  intro hu
  cases hi with
  | unnamed ht missing =>
    have hname : ¬t.IsNamed := not_isNamed_iff.2 missing
    have hdot : ¬t.IsDotted := fun hd => hname (isNamed_of_isDotted hd)
    cases h <;> simp_all [Under]
  | _ => cases h <;> simp_all [Under]

private theorem inert_of_forall_not_under (hu : ∀ h, ¬t.Under h) : t.Inert := by
  by_cases hknown : t.title ∈ ["event", "tags", "param", "returns", "typedef", "property"]
  case neg => exact .unknownTitle hknown
  simp only [List.mem_cons, List.not_mem_nil, or_false] at hknown
  rcases hknown with ht | ht | ht | ht | ht | ht
  · exact .noSeparators ht (Decidable.not_and_iff_not_or_not.1 fun hd => hu .event ⟨ht, hd⟩)
  · exact .undescribed (by simp [ht]) (by simpa [Under, ht] using hu .tags)
  · by_cases hd : t.IsDotted
    · exact .untyped (by simp [ht]) (by simpa [Under, ht, hd] using hu .param)
    · exact .undotted ht hd
  · by_cases hd : t.description = ""
    · exact .undescribed (by simp [ht]) hd
    · exact .untyped (by simp [ht]) (by simpa [Under, ht, hd] using hu .returns)
  · have hname : ¬t.IsNamed := by simpa [Under, ht] using hu .typedef
    exact .unnamed (by simp [ht]) (not_isNamed_iff.1 hname)
  · have hname : ¬t.IsNamed := by
      intro hn
      cases htype : t.type with
      | none => exact hu .untypedProperty ⟨ht, hn, by simp [htype]⟩
      | some type => exact hu .property ⟨ht, hn, by simp [htype]⟩
    exact .unnamed (by simp [ht]) (not_isNamed_iff.1 hname)

theorem idle_iff : t.Idle ↔ t.errors = [] ∧ t.Inert :=
  ⟨fun h => ⟨h.wellFormed, inert_of_forall_not_under h.untaken⟩, fun ⟨he, hi⟩ => ⟨he, hi.not_under⟩⟩

private theorem exists_under_of_role?_eq_some {r : Role} (h : t.role? = some r) : ∃ h, t.Under h := by
  unfold role? at h
  split at h
  next ht => exact ⟨.event, ht, (Option.ite_none_right_eq_some.1 h).1⟩
  next ht => exact ⟨.tags, ht, (Option.ite_none_right_eq_some.1 h).1⟩
  next n type ht hn hty =>
    exact ⟨.param, ht, isDotted_iff.2 ⟨n, hn, (Option.ite_none_right_eq_some.1 h).1⟩, by simp [hty]⟩
  next type ht hty =>
    exact ⟨.returns, ht, (Option.ite_none_right_eq_some.1 h).1, by simp [hty]⟩
  next n ht hn => exact ⟨.typedef, ht, isNamed_iff.2 ⟨n, hn⟩⟩
  next n type ht hn hty => exact ⟨.property, ht, isNamed_iff.2 ⟨n, hn⟩, by simp [hty]⟩
  next n ht hn hty => exact ⟨.untypedProperty, ht, isNamed_iff.2 ⟨n, hn⟩, by simp [hty]⟩
  next => cases h

theorem typed?_eq_some_iff {title : String} {p : TypedTag} : t.typed? title = some p ↔
    t.title = title ∧ t.properName? = some p.name ∧ t.description = p.description ∧
      t.type = some p.type := by
  obtain ⟨name, description, type⟩ := p
  simp only [typed?, Option.ite_none_right_eq_some, Option.bind_eq_some_iff, Option.map_eq_some_iff,
    TypedTag.mk.injEq]
  grind

/-- The parts of a tag that a heading may take. -/
def parts (t : Tag) : Option String × String × Option TypeExpr := (t.name, t.description, t.type)

end Tag

def TypedTag.parts (t : TypedTag) : Option String × String × Option TypeExpr :=
  (some t.name, t.description, some t.type)

theorem Tag.parts_of_typed? {t : Tag} {title : String} {p : TypedTag} (h : t.typed? title = some p) :
    p.parts = t.parts := by
  obtain ⟨-, hn, hdescription, htype⟩ := typed?_eq_some_iff.1 h
  simp [TypedTag.parts, parts, (properName?_eq_some_iff.1 hn).1, hdescription, htype]

/-- A view shows something of exactly the tags that a heading takes, and it is what they say. -/
structure Heading.ShownBy {α β : Type} (h : Heading) (view : Tag → Option α) (shown : α → β)
    (said : Tag → β) : Prop where
  isSome_iff : ∀ t : Tag, t.Under h ↔ ∃ a, view t = some a
  shown_eq : ∀ (t : Tag) (a : α), view t = some a → shown a = said t

namespace Heading

theorem ShownBy.map_filterMap {α β : Type} {h : Heading} {view : Tag → Option α} {shown : α → β}
    {said : Tag → β} (hs : h.ShownBy view shown said) (tags : List Tag) :
    (tags.filterMap view).map shown = (tags.filter (·.Under h)).map said := by
  induction tags with
  | nil => rfl
  | cons t tags ih =>
    by_cases hu : t.Under h
    · obtain ⟨a, ha⟩ := (hs.isSome_iff t).1 hu
      simp [ha, hu, ih, hs.shown_eq t a ha]
    · have hnone : view t = none :=
        Option.eq_none_iff_forall_ne_some.2 fun a ha => hu ((hs.isSome_iff t).2 ⟨a, ha⟩)
      simp [hnone, hu, ih]

theorem shownBy_event : event.ShownBy Tag.event? id Tag.description where
  isSome_iff t := by simp [Tag.event?, Tag.Under]
  shown_eq t d hd := (Option.some.inj (Option.ite_none_right_eq_some.1 hd).2).symm

theorem shownBy_tags : tags.ShownBy Tag.tagList? id Tag.description where
  isSome_iff t := by simp [Tag.tagList?, Tag.Under]
  shown_eq t d hd := (Option.some.inj (Option.ite_none_right_eq_some.1 hd).2).symm

theorem shownBy_param : param.ShownBy Tag.param? TypedTag.parts Tag.parts where
  isSome_iff t := by
    simp only [Tag.Under, Tag.isDotted_iff, Option.isSome_iff_exists, Tag.param?_eq_some_iff]
    constructor
    · rintro ⟨ht, ⟨n, hn, hdot⟩, type, htype⟩
      exact ⟨⟨n, t.description, type⟩, ht, hn, hdot, rfl, htype⟩
    · rintro ⟨p, ht, hn, hdot, -, htype⟩
      exact ⟨ht, ⟨p.name, hn, hdot⟩, p.type, htype⟩
  shown_eq t p hp := Tag.parts_of_typed? (Option.filter_eq_some_iff.1 hp).1

theorem shownBy_property : property.ShownBy Tag.property? TypedTag.parts Tag.parts where
  isSome_iff t := by
    simp only [Tag.Under, Tag.isNamed_iff, Option.isSome_iff_exists, Tag.property?,
      Tag.typed?_eq_some_iff]
    constructor
    · rintro ⟨ht, ⟨n, hn⟩, type, htype⟩
      exact ⟨⟨n, t.description, type⟩, ht, hn, rfl, htype⟩
    · rintro ⟨p, ht, hn, -, htype⟩
      exact ⟨ht, ⟨p.name, hn⟩, p.type, htype⟩
  shown_eq t p hp := Tag.parts_of_typed? hp

theorem shownBy_untypedProperty :
    untypedProperty.ShownBy Tag.untypedProperty? some Tag.name where
  isSome_iff t := by
    simp only [Tag.Under, Tag.isNamed_iff, Tag.untypedProperty?, Option.ite_none_right_eq_some]
    constructor
    · rintro ⟨ht, ⟨n, hn⟩, htype⟩
      exact ⟨n, ⟨ht, htype⟩, hn⟩
    · rintro ⟨n, ⟨ht, htype⟩, hn⟩
      exact ⟨ht, ⟨n, hn⟩, htype⟩
  shown_eq t n hn := by
    have hname := (Option.ite_none_right_eq_some.1 hn).2
    exact (Tag.properName?_eq_some_iff.1 hname).1.symm

theorem shownBy_returns : returns.ShownBy Tag.returns? (fun r => (r.description, some r.type))
    (fun t => (t.description, t.type)) where
  isSome_iff t := by
    simp only [Tag.Under, Tag.returns?, Option.isSome_iff_exists, Option.ite_none_right_eq_some,
      Option.map_eq_some_iff]
    constructor
    · rintro ⟨ht, hd, type, htype⟩
      exact ⟨⟨t.description, type⟩, ⟨ht, hd⟩, type, htype, rfl⟩
    · rintro ⟨r, ⟨ht, hd⟩, type, htype, -⟩
      exact ⟨ht, hd, type, htype⟩
  shown_eq t r hr := by
    obtain ⟨-, hr⟩ := Option.ite_none_right_eq_some.1 hr
    obtain ⟨type, htype, rfl⟩ := Option.map_eq_some_iff.1 hr
    rw [htype]

theorem shownBy_typedef : typedef.ShownBy Tag.typedef? (fun r => (some r.name, r.description))
    (fun t => (t.name, t.description)) where
  isSome_iff t := by
    simp only [Tag.Under, Tag.isNamed_iff, Tag.typedef?, Option.ite_none_right_eq_some,
      Option.map_eq_some_iff]
    constructor
    · rintro ⟨ht, n, hn⟩
      exact ⟨⟨n, t.description⟩, ht, n, hn, rfl⟩
    · rintro ⟨r, ht, n, hn, -⟩
      exact ⟨ht, n, hn⟩
  shown_eq t r hr := by
    obtain ⟨-, hr⟩ := Option.ite_none_right_eq_some.1 hr
    obtain ⟨n, hn, rfl⟩ := Option.map_eq_some_iff.1 hr
    rw [(Tag.properName?_eq_some_iff.1 hn).1]

end Heading

theorem Block.errored?_eq_some_iff {b : Block} {t : Tag} : b.errored? = some t ↔
    ∃ before after, b.tags = before ++ t :: after ∧ (∀ u ∈ before, u.errors = []) ∧ t.errors ≠ [] := by
  simp only [errored?, List.find?_eq_some_iff_append, decide_eq_true_eq, Bool.not_eq_eq_eq_not,
    Bool.not_true, decide_eq_false_iff_not, Decidable.not_not]
  grind

namespace Roles

/-- Each list holds, in order and with repeats, what the tags under its heading say. -/
structure Selects (given : List Tag) (roles : Roles) : Prop where
  event : roles.event = (given.filter (·.Under .event)).map (·.description)
  tags : roles.tags = (given.filter (·.Under .tags)).map (·.description)
  param : roles.param.map (·.parts) = (given.filter (·.Under .param)).map (·.parts)
  returns : roles.returns.map (fun r => (r.description, some r.type)) =
    (given.filter (·.Under .returns)).map (fun t => (t.description, t.type))
  typedef : roles.typedef.map (fun r => (some r.name, r.description)) =
    (given.filter (·.Under .typedef)).map (fun t => (t.name, t.description))
  property : roles.property.map (·.parts) = (given.filter (·.Under .property)).map (·.parts)
  untypedProperty : roles.untypedProperty.map some =
    (given.filter (·.Under .untypedProperty)).map (·.name)

theorem selects_roles (b : Block) : b.roles.Selects b.tags where
  event := (List.map_id _).symm.trans (Heading.shownBy_event.map_filterMap b.tags)
  tags := (List.map_id _).symm.trans (Heading.shownBy_tags.map_filterMap b.tags)
  param := Heading.shownBy_param.map_filterMap b.tags
  returns := Heading.shownBy_returns.map_filterMap b.tags
  typedef := Heading.shownBy_typedef.map_filterMap b.tags
  property := Heading.shownBy_property.map_filterMap b.tags
  untypedProperty := Heading.shownBy_untypedProperty.map_filterMap b.tags

theorem ofTags_eq_error_iff {tags : List Tag} {e : Error} : ofTags tags = .error e ↔
    ∃ before t after, tags = before ++ t :: after ∧ (∀ u ∈ before, u.errors = []) ∧
      t.errors ≠ [] ∧ e = .tagErrors t.title t.errors := by
  have hfirst (t : Tag) := Block.errored?_eq_some_iff (b := ⟨"", tags⟩) (t := t)
  rw [ofTags_eq ⟨"", tags⟩]
  cases hb : (Block.mk "" tags).errored? with
  | none =>
    simp only [hb, reduceCtorEq, false_iff] at hfirst ⊢
    rintro ⟨before, t, after, htags, hbefore, ht, -⟩
    exact hfirst t ⟨before, after, htags, hbefore, ht⟩
  | some t =>
    simp only [hb, Except.error.injEq, Option.some.injEq] at hfirst ⊢
    constructor
    · rintro rfl
      obtain ⟨before, after, htags, hbefore, ht⟩ := (hfirst t).1 rfl
      exact ⟨before, t, after, htags, hbefore, ht, rfl⟩
    · rintro ⟨before, u, after, htags, hbefore, hu, rfl⟩
      rw [(hfirst u).2 ⟨before, after, htags, hbefore, hu⟩]

theorem ofTags_cons_of_idle {t : Tag} (ht : t.Idle) (tags : List Tag) :
    ofTags (t :: tags) = ofTags tags := by
  have hrole : t.role? = none := Option.eq_none_iff_forall_ne_some.2 fun r hr => by
    obtain ⟨h, hu⟩ := Tag.exists_under_of_role?_eq_some hr
    exact ht.untaken h hu
  rw [ofTags, if_neg (not_not_intro ht.wellFormed), hrole]
  cases ofTags tags <;> rfl

theorem ofTags_filter_not_idle (tags : List Tag) :
    ofTags (tags.filter (¬·.Idle)) = ofTags tags := by
  induction tags with
  | nil => rfl
  | cons t tags ih =>
    by_cases ht : t.Idle
    · rw [List.filter_cons_of_neg (by simpa using ht), ih, ofTags_cons_of_idle ht]
    · rw [List.filter_cons_of_pos (by simpa using ht), ofTags, ofTags, ih]

/-- Sorting fails exactly if some tag has errors, and then reports the first such tag. Otherwise each list
is the selection that its heading makes. No two headings take the same tag, and lists that differ only by
well-formed tags that no heading takes are sorted alike. -/
theorem ofTags_agrees_with_headings (tags : List Tag) :
    ((∃ e, ofTags tags = .error e) ↔ ∃ t ∈ tags, t.errors ≠ []) ∧
      (∀ e, ofTags tags = .error e ↔ ∃ before t after, tags = before ++ t :: after ∧
        (∀ u ∈ before, u.errors = []) ∧ t.errors ≠ [] ∧ e = .tagErrors t.title t.errors) ∧
      ((∀ t ∈ tags, t.errors = []) → ∃ roles, ofTags tags = .ok roles ∧ roles.Selects tags) ∧
      (∀ (t : Tag) (h h' : Heading), t.Under h → t.Under h' → h = h') ∧
      (∀ t : Tag, t.Idle ↔ t.errors = [] ∧ t.Inert) ∧
      ∀ tags', tags'.filter (¬·.Idle) = tags.filter (¬·.Idle) → ofTags tags' = ofTags tags := by
  refine ⟨⟨?_, ?_⟩, fun e => ofTags_eq_error_iff, ?_, fun t h h' => Tag.Under.unique,
    fun t => Tag.idle_iff, ?_⟩
  · rintro ⟨e, he⟩
    obtain ⟨before, t, after, rfl, -, ht, -⟩ := ofTags_eq_error_iff.1 he
    exact ⟨t, by simp, ht⟩
  · rintro ⟨t, hmem, ht⟩
    cases hb : (Block.mk "" tags).errored? with
    | none => exact absurd (Block.errored?_eq_none_iff.1 hb t hmem) ht
    | some u => exact ⟨.tagErrors u.title u.errors, by rw [ofTags_eq ⟨"", tags⟩, hb]⟩
  · intro hall
    have hsorted : ofTags tags = .ok (Block.mk "" tags).roles := by
      rw [ofTags_eq ⟨"", tags⟩, Block.errored?_eq_none_iff.2 hall]
    exact ⟨_, hsorted, selects_roles ⟨"", tags⟩⟩
  · intro tags' hsame
    rw [← ofTags_filter_not_idle tags', hsame, ofTags_filter_not_idle]

def served : List Tag := [
  { title := "event", description := "GET: /pets - listPets" },
  { title := "param", name := some "query.age", type := some (.name "integer") },
  { title := "property", name := some "id" },
  { title := "param", name := some "query.age", type := some (.name "integer") },
  { title := "returns", description := "200 - Pets", type := some (.arrayOf (.name "Pet")) }]

/-- The same tags among others that no heading takes. -/
def crowded : List Tag :=
  { title := "author", description := "GET: /x - y" } ::
  { title := "param", name := some "age", type := some .any } ::
  served ++ [
  { title := "param", name := some "query.age" },
  { title := "typedef", name := some "" },
  { title := "returns", type := some .any }]

theorem ofTags_agrees_with_headings_crowded :
    (∀ t ∈ crowded, t.errors = []) ∧
      (∃ roles, ofTags crowded = .ok roles ∧ roles.Selects crowded ∧
        roles.event = ["GET: /pets - listPets"] ∧ roles.param.length = 2) ∧
      (∀ h, Tag.Under { title := "property", name := some "id" } h → h = .untypedProperty) ∧
      served.filter (¬·.Idle) = crowded.filter (¬·.Idle) ∧ ofTags served = ofTags crowded := by
  have hall : ∀ t ∈ crowded, t.errors = [] := by simp [crowded, served]
  have hsame : served.filter (¬·.Idle) = crowded.filter (¬·.Idle) := by rfl
  obtain ⟨-, -, hsorted, hunique, -, hidle⟩ := ofTags_agrees_with_headings crowded
  obtain ⟨roles, hroles, hselects⟩ := hsorted hall
  have hparams : roles.param.length = 2 :=
    (List.length_map _).symm.trans (congrArg List.length hselects.param)
  exact ⟨hall, ⟨roles, hroles, hselects, hselects.event, hparams⟩,
    fun h hu => hunique _ h .untypedProperty hu (by decide), hsame, hidle served hsame⟩

end Roles

end AnnotatedApi
