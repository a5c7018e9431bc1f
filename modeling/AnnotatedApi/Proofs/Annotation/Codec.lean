import AnnotatedApi.Annotation.Basic
import AnnotatedApi.Proofs.Document.Codec

/-! Writing annotations as JSON and reading them back. A type is an object that names its kind, and its
parts are found under names of their own, so that it is restored from the inside out. Main statement:
types, tags and blocks within the limit are read back from their texts, and no two types have one text. -/
namespace AnnotatedApi

open Json Record

namespace Json

theorem isBlank_compact : compact.IsBlank where
  newline _ := spaces_nil
  colon := ⟨[], rfl, spaces_nil⟩

theorem Yields.unique {α : Type} {step : (cs : List Char) → Option (α × Rest cs)}
    {cs rest rest' : List Char} {a b : α} (h : Yields step cs a rest) (h' : Yields step cs b rest') :
    a = b := by
  obtain ⟨_, h⟩ := h
  obtain ⟨_, h'⟩ := h'
  exact (Prod.mk.inj (Option.some.inj (h.symm.trans h'))).1

theorem toNode_injective {v w : Json} (h : toNode v = toNode w) : v = w := by
  have := congrArg Node.value? h
  rwa [value?_toNode, value?_toNode, Option.some.injEq] at this

theorem eq_of_render_eq {layout : Layout} (hl : layout.IsBlank) {v w : Json} (hv : v.IsExact)
    (hw : w.IsExact) (h : v.render layout = w.render layout) : v = w := by
  -- A reader with room for both values takes nothing away from them.
  have hread {u : Json} (hu : u.IsExact) (hdepth : u.depth ≤ max v.depth w.depth) :
      Yields (value? (max v.depth w.depth)) (print layout 0 u) (toNode u) [] := by
    rw [← nodeWithin_eq_toNode u hdepth]
    simpa using yields_value? hl u hu _ 0 spaces_nil [] (by simp [EndsNumeral])
  have hread_v := hread hv (Nat.le_max_left _ _)
  rw [String.ofList_injective h] at hread_v
  exact toNode_injective (hread_v.unique (hread hw (Nat.le_max_right _ _)))

end Json

namespace Record

variable {α : Type} {decode : Node → Option α} {toJson : α → Json}

theorem orElse_written_eq {fields : List (String × Option Json)} {place : Nat} {name : String}
    (hn : (fields.map Prod.fst).Nodup) (default : α) (decode : Node → Option α) :
    (written fields).orElse place name default decode =
      (fieldAt name fields).elim (some default) (decode <| toNode ·) := by
  cases h : fieldAt name fields <;> simp [orElse, field?_written hn, h]

private theorem elim_optional? {o : Option α} (h : ∀ a ∈ o, Restores decode toJson a) :
    o.elim (some none) ((Source.optional? decode <| toNode ·) ∘ toJson) = some o := by
  cases o with
  | none => rfl
  | some a => exact (h a rfl).optional?_eq

/-- An empty list is left out, and is what a missing list stands for. -/
private theorem elim_texts? (ss : List String) :
    (if ss = [] then none else some (Json.arr (ss.map .str))).elim (some [])
        (Source.texts? <| toNode ·) =
      some ss := by
  cases ss with
  | nil => rfl
  | cons s ss => exact (restores_texts (s :: ss)).decode_toNode

end Record

namespace TypeExpr

private theorem toJsonList_eq_map (ts : List TypeExpr) : toJsonList ts = ts.map toJson := by
  induction ts with
  | nil => simp [toJsonList]
  | cons t ts ih => simp [toJsonList, ih]

private theorem toJson_ne_null (t : TypeExpr) : t.toJson ≠ .null := by
  cases t <;> simp [toJson]

theorem kind?_written (fields : List (String × Option Json)) :
    kind? (written fields) = ((written fields).required 0 "type" Source.text?).map (·, written fields) :=
  rfl

/-- The kind is found under its own name, and the rest of the object is left to the kind. -/
theorem decodeWithin_tagged {n : Nat} {kind : String} {parts : List (String × Json)}
    (hn : ("type" :: parts.map Prod.fst).Nodup) :
    decodeWithin (n + 1) (toNode (.obj (("type", .str kind) :: parts))) =
      ofParts? (decodeWithin n) kind
        (written (("type", some (.str kind)) :: parts.map fun m => (m.1, some m.2))) := by
  simp only [decodeWithin, record?_toNode_obj, kind?_written, List.map_cons, Option.bind_eq_bind,
    Option.bind_some]
  rw [required_written (by simpa [Function.comp_def] using hn)]
  simp [fieldAt, (restores_text kind).decode_toNode]

private theorem depth_le_of_part {n : Nat} {kind : String} {parts : List (String × Json)} {v : Json}
    (h : (obj (("type", .str kind) :: parts)).depth ≤ n + 1) (name : String) (hv : (name, v) ∈ parts) :
    v.depth ≤ n :=
  Nat.le_of_lt_succ (depth_lt_of_mem_obj h (name, v) (List.mem_cons_of_mem _ hv))

theorem restores_within {n : Nat} {t : TypeExpr} (h : t.toJson.depth ≤ n) :
    Restores (decodeWithin n) toJson t := by
  refine ⟨?_, toJson_ne_null t⟩
  induction n generalizing t with
  | zero => cases t <;> simp [toJson, depth] at h
  | succ n ih =>
    have hlist (ts : List TypeExpr) (hts : (arr (ts.map toJson)).depth ≤ n) :
        Source.list? (decodeWithin n) (toNode (.arr (ts.map toJson))) = some ts :=
      (restores_list fun t ht => ⟨ih (depth_lt_of_mem_map hts t ht).le, toJson_ne_null t⟩).decode_toNode
    cases t with
    | name s =>
      rw [toJson, decodeWithin_tagged (by simp)]
      simp [ofParts?, required_written, fieldAt, (restores_text s).decode_toNode]
    | optional t | nullable t | nonNullable t =>
      rw [toJson] at h ⊢
      have ht := ih (t := t) (depth_le_of_part h "expression" (by simp))
      rw [decodeWithin_tagged (by simp)]
      simp [ofParts?, required_written, fieldAt, ht]
    | union ts =>
      rw [toJson, toJsonList_eq_map] at h ⊢
      have hts := hlist ts (depth_le_of_part h "elements" (by simp))
      rw [decodeWithin_tagged (by simp)]
      simp [ofParts?, required_written, fieldAt, hts]
    | apply c ts =>
      rw [toJson, toJsonList_eq_map] at h ⊢
      have hc := ih (t := c) (depth_le_of_part h "expression" (by simp))
      have hts := hlist ts (depth_le_of_part h "applications" (by simp))
      rw [decodeWithin_tagged (by simp)]
      simp [ofParts?, required_written, fieldAt, hc, hts]
    | any =>
      rw [toJson, decodeWithin_tagged (by simp)]
      simp [ofParts?]

theorem restores {t : TypeExpr} (h : t.toJson.depth ≤ nestingLimit) : Restores decode toJson t :=
  restores_within h

theorem eq_of_toJson_eq {t u : TypeExpr} (h : t.toJson = u.toJson) : t = u := by
  have ht := (restores_within (Nat.le_refl t.toJson.depth)).decode_toNode
  have hu := (restores_within (Nat.le_refl u.toJson.depth)).decode_toNode
  rw [h, hu] at ht
  exact (Option.some.inj ht).symm

mutual

theorem isExact_toJson : (t : TypeExpr) → t.toJson.IsExact
  | name _ | any => by simp [toJson]
  | optional t | nullable t | nonNullable t => by simpa [toJson] using isExact_toJson t
  | union ts => by simpa [toJson] using isExact_of_mem_toJsonList ts
  | apply c ts => by simpa [toJson] using ⟨isExact_toJson c, isExact_of_mem_toJsonList ts⟩

theorem isExact_of_mem_toJsonList : (ts : List TypeExpr) → ∀ v ∈ toJsonList ts, v.IsExact
  | [] => by simp [toJsonList]
  | t :: ts => by simpa [toJsonList] using ⟨isExact_toJson t, isExact_of_mem_toJsonList ts⟩

end

end TypeExpr

namespace Tag

theorem restores {t : Tag} (h : t.toJson.depth ≤ nestingLimit) : Restores decode toJson t where
  decode_toNode := by
    have hfields := depth_lt_of_mem_ofMembers h
    simp only [List.forall_mem_cons, Option.forall_mem_map] at hfields
    obtain ⟨-, -, -, hdepth, -⟩ := hfields
    have htype : ∀ e ∈ t.type, Restores TypeExpr.decode (·.toJson) e := fun e he =>
      TypeExpr.restores (hdepth e he).le
    simp [decode, toJson, record?_toNode_ofMembers, required_written, orElse_written_eq, fieldAt,
      (restores_text _).decode_toNode, elim_optional?, restores_text, elim_optional? htype, elim_texts?]
  not_null := Json.noConfusion

theorem isExact_toJson (t : Tag) : t.toJson.IsExact := by
  simp only [toJson, isExact_ofMembers, List.forall_mem_cons, Option.forall_mem_map]
  simp [TypeExpr.isExact_toJson]

end Tag

namespace Block

theorem restores {b : Block} (h : b.toJson.depth ≤ nestingLimit) : Restores decode toJson b where
  decode_toNode := by
    have hfields := depth_lt_of_mem_obj h
    simp only [List.forall_mem_cons] at hfields
    obtain ⟨-, hdepth, -⟩ := hfields
    have htags := restores_list fun t ht => Tag.restores (depth_lt_of_mem_map hdepth.le t ht).le
    simp [decode, toJson, record?_toNode_obj, required_written, orElse_written_eq, fieldAt,
      (restores_text _).decode_toNode, htags.decode_toNode]
  not_null := Json.noConfusion

theorem isExact_toJson (b : Block) : b.toJson.IsExact := by
  simp [toJson, Tag.isExact_toJson]

end Block

theorem Restores.read_back {α : Type} {decode : Node → Option α} {toJson : α → Json} {a : α}
    (h : Restores decode toJson a) {layout : Layout} (hl : layout.IsBlank) (hexact : (toJson a).IsExact)
    (hdepth : (toJson a).depth ≤ nestingLimit) :
    (Json.read? ((toJson a).render layout)).bind decode = some a := by
  rw [read?_render hl hexact, nodeWithin_eq_toNode _ hdepth]
  exact h.decode_toNode

theorem TypeExpr.eq_of_display_eq {t u : TypeExpr} (h : t.display = u.display) : t = u :=
  eq_of_toJson_eq (eq_of_render_eq isBlank_compact t.isExact_toJson u.isExact_toJson h)

def Json.memberNames : Json → List String
  | .obj members => members.map Prod.fst
  | _ => []

/-- What a tag lacks is not written. -/
theorem Tag.memberNames_toJson (t : Tag) : t.toJson.memberNames =
    ["title", "description"] ++ (if t.name.isSome then ["name"] else []) ++
      (if t.type.isSome then ["type"] else []) ++ if t.errors ≠ [] then ["errors"] else [] := by
  obtain ⟨title, description, name, type, errors⟩ := t
  cases name <;> cases type <;> cases errors <;> rfl

theorem TypeExpr.head?_memberNames_toJson (t : TypeExpr) : t.toJson.memberNames.head? = some "type" := by
  cases t <;> rw [toJson] <;> rfl

/-- Types, tags and blocks that are nested within the limit are read back from their texts: types from
the compact text in which messages show them, tags and blocks from any layout. Types of any depth are
told apart by their texts. -/
theorem annotations_read_back :
    (∀ t : TypeExpr, t.toJson.memberNames.head? = some "type") ∧
      (∀ t : TypeExpr, t.toJson.depth ≤ nestingLimit →
        (Json.read? t.display).bind TypeExpr.decode = some t) ∧
      (∀ t u : TypeExpr, t.display = u.display → t = u) ∧
      (∀ t : Tag, t.toJson.memberNames =
        ["title", "description"] ++ (if t.name.isSome then ["name"] else []) ++
          (if t.type.isSome then ["type"] else []) ++ if t.errors ≠ [] then ["errors"] else []) ∧
      (∀ (t : Tag) (layout : Layout), layout.IsBlank → t.toJson.depth ≤ nestingLimit →
        (Json.read? (t.toJson.render layout)).bind Tag.decode = some t) ∧
      ∀ (b : Block) (layout : Layout), layout.IsBlank → b.toJson.depth ≤ nestingLimit →
        (Json.read? (b.toJson.render layout)).bind Block.decode = some b := by
  refine ⟨TypeExpr.head?_memberNames_toJson, fun t hdepth => ?_, fun t u => TypeExpr.eq_of_display_eq,
    Tag.memberNames_toJson, fun t layout hl hdepth => ?_, fun b layout hl hdepth => ?_⟩
  · exact (TypeExpr.restores hdepth).read_back isBlank_compact t.isExact_toJson hdepth
  · exact (Tag.restores hdepth).read_back hl t.isExact_toJson hdepth
  · exact (Block.restores hdepth).read_back hl b.isExact_toJson hdepth

/-- A type of many kinds, with an empty union and names that need quoting. -/
def TypeExpr.mixed : TypeExpr :=
  .union [.optional (.name "a\"b"), .apply (.nullable (.name "type")) [.any, .nonNullable (.union [])]]

def Tag.unnamed : Tag where
  title := "type"
  description := "\\ \n\x01"
  type := some .mixed
  errors := ["", "é\t"]

theorem annotations_read_back_mixed :
    TypeExpr.mixed.toJson.depth ≤ nestingLimit ∧
      (Json.read? TypeExpr.mixed.display).bind TypeExpr.decode = some .mixed ∧
      Tag.unnamed.toJson.depth ≤ nestingLimit ∧
      Tag.unnamed.toJson.memberNames = ["title", "description", "type", "errors"] ∧
      (Json.read? (Tag.unnamed.toJson.render compact)).bind Tag.decode = some .unnamed ∧
      (Block.mk "" [.unnamed, .unnamed]).toJson.depth ≤ nestingLimit ∧
      (Json.read? ((Block.mk "" [.unnamed, .unnamed]).toJson.render pretty)).bind Block.decode =
        some ⟨"", [.unnamed, .unnamed]⟩ := by
  have htype : TypeExpr.mixed.toJson.depth ≤ nestingLimit := by decide
  have htag : Tag.unnamed.toJson.depth ≤ nestingLimit := by decide
  have hblock : (Block.mk "" [.unnamed, .unnamed]).toJson.depth ≤ nestingLimit := by decide
  obtain ⟨-, htypes, -, hnames, htags, hblocks⟩ := annotations_read_back
  exact ⟨htype, htypes _ htype, htag, hnames _, htags _ compact isBlank_compact htag, hblock,
    hblocks _ pretty isBlank_pretty hblock⟩

end AnnotatedApi
