import AnnotatedApi.Annotation.Role

/-! Sorting the tags of a block. Each title has a view of its own, which says by the rule of that title
alone what a tag contributes. Main statement: a block without errors in its tags is sorted into what each
view picks from them, in order, and otherwise its first tag with errors is reported. -/
namespace AnnotatedApi

namespace Tag

def event? (t : Tag) : Option String :=
  if t.title = "event" ∧ ':' ∈ t.description.toList ∧ '-' ∈ t.description.toList then
    some t.description
  else none

def tagList? (t : Tag) : Option String :=
  if t.title = "tags" ∧ t.description ≠ "" then some t.description else none

def typed? (title : String) (t : Tag) : Option TypedTag :=
  if t.title = title then
    t.properName?.bind fun n => t.type.map fun type => ⟨n, t.description, type⟩
  else none

def param? (t : Tag) : Option TypedTag := (t.typed? "param").filter ('.' ∈ ·.name.toList)

def property? (t : Tag) : Option TypedTag := t.typed? "property"

def untypedProperty? (t : Tag) : Option String :=
  if t.title = "property" ∧ t.type.isNone then t.properName? else none

def returns? (t : Tag) : Option ReturnsTag :=
  if t.title = "returns" ∧ t.description ≠ "" then t.type.map (⟨t.description, ·⟩) else none

def typedef? (t : Tag) : Option TypedefTag :=
  if t.title = "typedef" then t.properName?.map (⟨·, t.description⟩) else none

-- A tag shows nothing through the views of other titles.

variable {t : Tag}

@[simp] theorem event?_of_title_ne (h : t.title ≠ "event") : t.event? = none := by
  simp [event?, h]

@[simp] theorem tagList?_of_title_ne (h : t.title ≠ "tags") : t.tagList? = none := by
  simp [tagList?, h]

@[simp] theorem param?_of_title_ne (h : t.title ≠ "param") : t.param? = none := by
  simp [param?, typed?, h]

@[simp] theorem property?_of_title_ne (h : t.title ≠ "property") : t.property? = none := by
  simp [property?, typed?, h]

@[simp] theorem untypedProperty?_of_title_ne (h : t.title ≠ "property") :
    t.untypedProperty? = none := by
  simp [untypedProperty?, h]

@[simp] theorem returns?_of_title_ne (h : t.title ≠ "returns") : t.returns? = none := by
  simp [returns?, h]

@[simp] theorem typedef?_of_title_ne (h : t.title ≠ "typedef") : t.typedef? = none := by
  simp [typedef?, h]

theorem param?_eq_some_iff {p : TypedTag} : t.param? = some p ↔
    t.title = "param" ∧ t.properName? = some p.name ∧ '.' ∈ p.name.toList ∧
      t.description = p.description ∧ t.type = some p.type := by
  obtain ⟨name, description, type⟩ := p
  simp only [param?, typed?, Option.filter_eq_some_iff, Option.ite_none_right_eq_some,
    Option.bind_eq_some_iff, Option.map_eq_some_iff, TypedTag.mk.injEq, decide_eq_true_eq]
  grind

private theorem typed?_eq_none {title : String}
    (h : ∀ n type, t.title = title → t.properName? = some n → t.type = some type → False) :
    t.typed? title = none := by
  simp only [typed?, ite_eq_right_iff, Option.bind_eq_none_iff, Option.map_eq_none_iff]
  intro ht n hn
  exact Option.eq_none_iff_forall_ne_some.2 fun type => h n type ht hn

private theorem typedef?_eq_none (h : ∀ n, t.title = "typedef" → t.properName? = some n → False) :
    t.typedef? = none := by
  simp only [typedef?, ite_eq_right_iff, Option.map_eq_none_iff]
  intro ht
  exact Option.eq_none_iff_forall_ne_some.2 fun n => h n ht

private theorem returns?_eq_none (h : ∀ type, t.title = "returns" → t.type = some type → False) :
    t.returns? = none := by
  simp only [returns?, ite_eq_right_iff, Option.map_eq_none_iff]
  intro ht
  exact Option.eq_none_iff_forall_ne_some.2 fun type => h type ht.1

private theorem untypedProperty?_eq_none
    (h : ∀ n, t.title = "property" → t.properName? = some n → t.type = none → False) :
    t.untypedProperty? = none := by
  simp only [untypedProperty?, ite_eq_right_iff]
  intro ht
  exact Option.eq_none_iff_forall_ne_some.2 fun n hn => h n ht.1 hn (by simpa using ht.2)

end Tag

namespace Block

variable (b : Block)

def events : List String := b.tags.filterMap Tag.event?

def tagLists : List String := b.tags.filterMap Tag.tagList?

def params : List TypedTag := b.tags.filterMap Tag.param?

def returns : List ReturnsTag := b.tags.filterMap Tag.returns?

def typedefs : List TypedefTag := b.tags.filterMap Tag.typedef?

def properties : List TypedTag := b.tags.filterMap Tag.property?

def untypedProperties : List String := b.tags.filterMap Tag.untypedProperty?

def roles : Roles where
  event := b.events
  tags := b.tagLists
  param := b.params
  returns := b.returns
  typedef := b.typedefs
  property := b.properties
  untypedProperty := b.untypedProperties

def errored? : Option Tag := b.tags.find? (·.errors ≠ [])

theorem filterMap_tags_cons {α : Type} (view : Tag → Option α) (t : Tag) (tags : List Tag) :
    (t :: tags).filterMap view = (view t).toList ++ tags.filterMap view := by
  cases h : view t <;> simp [h]

theorem roles_cons (t : Tag) : { b with tags := t :: b.tags : Block }.roles = {
    event := t.event?.toList ++ b.events
    tags := t.tagList?.toList ++ b.tagLists
    param := t.param?.toList ++ b.params
    returns := t.returns?.toList ++ b.returns
    typedef := t.typedef?.toList ++ b.typedefs
    property := t.property?.toList ++ b.properties
    untypedProperty := t.untypedProperty?.toList ++ b.untypedProperties } := by
  simp only [roles, events, tagLists, params, returns, typedefs, properties, untypedProperties,
    filterMap_tags_cons]

end Block

/-- A tag adds to a sorted block what its views show; at most one of them shows anything. -/
theorem Tag.elim_role? (t : Tag) (b : Block) :
    t.role?.elim b.roles b.roles.add = { b with tags := t :: b.tags : Block }.roles := by
  rw [Block.roles_cons]
  unfold Tag.role?
  split
  next ht =>
    by_cases hd : ':' ∈ t.description.toList ∧ '-' ∈ t.description.toList <;>
      simp [ht, event?, hd, Roles.add, Block.roles]
  next ht =>
    by_cases hd : t.description = "" <;> simp [ht, tagList?, hd, Roles.add, Block.roles]
  next n type ht hn hty =>
    by_cases hd : '.' ∈ n.toList <;>
      simp [ht, hn, hty, param?, typed?, Option.filter_some, hd, Roles.add, Block.roles]
  next type ht hty =>
    by_cases hd : t.description = "" <;> simp [ht, hty, returns?, hd, Roles.add, Block.roles]
  next n ht hn =>
    simp [ht, hn, typedef?, Roles.add, Block.roles]
  next n type ht hn hty =>
    simp [ht, hn, hty, property?, typed?, untypedProperty?, Roles.add, Block.roles]
  next n ht hn hty =>
    simp [ht, hn, hty, property?, typed?, untypedProperty?, Roles.add, Block.roles]
  next hevent htags htypedef hreturns hparam hproperty huntyped =>
    -- No rule is met, so no view shows anything.
    simp [event?_of_title_ne hevent, tagList?_of_title_ne htags, param?, typed?_eq_none hparam,
      returns?_eq_none hreturns, typedef?_eq_none htypedef, property?, typed?_eq_none hproperty,
      untypedProperty?_eq_none huntyped, Block.roles]

/-- A block is sorted into what the views pick, unless some tag has errors: then the first such tag is
reported. -/
theorem Roles.ofTags_eq (b : Block) : ofTags b.tags =
    match b.errored? with
    | some t => .error (.tagErrors t.title t.errors)
    | none => .ok b.roles := by
  obtain ⟨description, tags⟩ := b
  unfold Block.errored?
  induction tags with
  | nil => rfl
  | cons t tags ih =>
    unfold ofTags
    by_cases ht : t.errors = []
    · rw [if_neg (fun hne => hne ht), List.find?_cons_of_neg (by simpa using ht), ih]
      cases hrest : tags.find? (·.errors ≠ []) with
      | some t' => rfl
      | none => exact congrArg Except.ok (Tag.elim_role? t ⟨description, tags⟩)
    · rw [if_pos ht, List.find?_cons_of_pos (by simpa using ht)]

theorem Block.errored?_eq_none_iff {b : Block} : b.errored? = none ↔ ∀ t ∈ b.tags, t.errors = [] := by
  simp [errored?]

end AnnotatedApi
