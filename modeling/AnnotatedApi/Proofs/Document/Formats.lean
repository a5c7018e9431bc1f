import AnnotatedApi.Build
import AnnotatedApi.Proofs.Document.Codec
import AnnotatedApi.Proofs.Yaml.RoundTrip

/-! A document in both formats. Main statement: what is read of the two texts is the same value, that of
the document, unless the document is nested so deeply that only one of the readers takes its text. -/
namespace AnnotatedApi

open Json

/-- The value that a text in a format stands for. -/
def Format.read? : Format → String → Option Json
  | json, text => (Json.read? text).bind Json.Node.value?
  | yaml, text => (Yaml.read? text).bind Yaml.Node.value?

namespace Document

variable {d : Document}

theorem read?_render_json (hd : d.info.HasNoDoubles) : Format.json.read? (d.render .json) =
    if d.toJson.depth ≤ nestingLimit then some d.toJson else none := by
  have hread : Json.read? d.toJsonText = some (nodeWithin nestingLimit d.toJson) :=
    read?_render isBlank_pretty (isExact_toJson hd)
  rw [Format.read?, render, hread, Option.bind_some, value?_nodeWithin]

theorem read?_render_yaml (hd : d.info.HasNoDoubles) : Format.yaml.read? (d.render .yaml) =
    if d.toJson.depth ≤ Yaml.Node.depthLimit then some d.toJson else none := by
  have hexact := isExact_toJson hd
  obtain ⟨v, ms, h⟩ : ∃ v ms, d.toJson = obj (("openapi", v) :: ms) := ⟨_, _, rfl⟩
  rw [Format.read?, render, h]
  rw [h] at hexact
  exact Yaml.value?_read?_render hexact

/-- A document whose texts and keys look like something else, run over lines or do not fit on one. -/
def lookalikes : Document where
  openapi := "3.0.0"
  info := {
    title := "no: #1 'x'"
    version := "1.0"
    description := "\n  first\n\n- second\n# third\n\n"
    contact := some (.ofMembers
      [("~", .str ""), ("null", .str " \u2028x"), ("- x", .str "0o17"), ("", .null)]) }
  servers := [⟨"007", some "true"⟩, ⟨"|", some "\ttab\x1b"⟩]
  paths := .ofList [
    ("---", {}),
    ("two\nlines", { get := some {
      operationId := "? "
      responses := some (.ofList [("200", .json "1e3" {})]) } }),
    (String.ofList (List.replicate 129 'k'), {})]
  schemas := .ofList []

def nestedList : Nat → Json
  | 0 => arr []
  | n + 1 => arr [nestedList n]

private theorem depth_nestedList (n : Nat) : (nestedList n).depth = n + 1 := by
  induction n with
  | zero => rfl
  | succ n ih => simp [nestedList, depth, elementsDepth, ih]

theorem isExact_nestedList (n : Nat) : (nestedList n).IsExact := by
  induction n with
  | zero => simp [nestedList]
  | succ n ih => simpa [nestedList] using ih

theorem sorted_nestedList (n : Nat) : Sorted (nestedList n) := by
  induction n with
  | zero => simp [nestedList, Sorted, SortedElements]
  | succ n ih => simpa [nestedList, Sorted, SortedElements] using ih

def tower (n : Nat) : Document where
  openapi := "3.0.0"
  info := {
    title := ""
    version := ""
    contact := some ⟨[("x", nestedList n)], by simpa [SortedMembers] using sorted_nestedList n⟩ }
  servers := []
  paths := .ofList []
  schemas := .ofList []

theorem depth_tower (n : Nat) : (tower n).toJson.depth = n + 4 := by
  have hpaths : (OrderedMap.toJson PathItem.toJson (.ofList [])).depth = 1 := rfl
  have hschemas : (OrderedMap.toJson ObjectSchema.toJson (.ofList [])).depth = 1 := rfl
  have hcontact := depth_nestedList n
  simp only [tower, toJson, Info.toJson, FreeObject.toJson, componentsToJson, ofMembers,
    List.filterMap_cons, List.filterMap_nil, Option.map_some, Option.map_none, List.map_nil, depth,
    membersDepth, elementsDepth]
  omega

theorem hasNoDoubles_tower (n : Nat) : (tower n).info.HasNoDoubles :=
  ⟨by simp [tower, FreeObject.toJson, isExact_nestedList], by simp [tower]⟩

/-- The reader of YAML takes one more level than that of JSON. Both texts are read as the document itself
up to 127 levels, only that in YAML at 128, and none of them at more: the readings differ at 128 levels
and nowhere else. -/
theorem readings_agree_iff (hd : d.info.HasNoDoubles) :
    (Format.yaml.read? (d.render .yaml) = Format.json.read? (d.render .json) ↔ d.toJson.depth ≠ 128) ∧
    (d.toJson.depth < 128 → ∀ f : Format, f.read? (d.render f) = some d.toJson) ∧
    (d.toJson.depth = 128 → Format.yaml.read? (d.render .yaml) = some d.toJson ∧
      Format.json.read? (d.render .json) = none) ∧
    (128 < d.toJson.depth → ∀ f : Format, f.read? (d.render f) = none) := by
  have hyaml := read?_render_yaml hd
  have hjson := read?_render_json hd
  rw [Yaml.Node.depthLimit] at hyaml
  rw [nestingLimit] at hjson
  have hlow : d.toJson.depth < 128 → ∀ f : Format, f.read? (d.render f) = some d.toJson := by
    rintro h (_ | _)
    · rw [hjson, if_pos (by omega)]
    · rw [hyaml, if_pos (by omega)]
  have hlimit : d.toJson.depth = 128 → Format.yaml.read? (d.render .yaml) = some d.toJson ∧
      Format.json.read? (d.render .json) = none := by
    intro h
    rw [hyaml, hjson, if_pos (by omega), if_neg (by omega)]
    exact ⟨rfl, rfl⟩
  have hhigh : 128 < d.toJson.depth → ∀ f : Format, f.read? (d.render f) = none := by
    rintro h (_ | _)
    · rw [hjson, if_neg (by omega)]
    · rw [hyaml, if_neg (by omega)]
  refine ⟨⟨?_, ?_⟩, hlow, hlimit, hhigh⟩
  · intro heq h
    rw [(hlimit h).1, (hlimit h).2] at heq
    cases heq
  · intro hne
    rcases Nat.lt_or_gt_of_ne hne with h | h
    · rw [hlow h, hlow h]
    · rw [hhigh h, hhigh h]

/-- Texts that look like something else; one level at which only YAML is read; one more. -/
theorem readings_agree_lookalikes :
    (lookalikes.info.HasNoDoubles ∧ lookalikes.toJson.depth < 128 ∧
      Format.yaml.read? (lookalikes.render .yaml) = Format.json.read? (lookalikes.render .json) ∧
      Format.yaml.read? (lookalikes.render .yaml) = some lookalikes.toJson) ∧
    Format.yaml.read? ((tower 124).render .yaml) = some (tower 124).toJson ∧
    Format.json.read? ((tower 124).render .json) = none ∧
    Format.yaml.read? ((tower 125).render .yaml) = none := by
  have hd : lookalikes.info.HasNoDoubles := by
    refine ⟨?_, by simp [lookalikes]⟩
    rintro _ ⟨⟩
    exact FreeObject.isExact_ofMembers ⟨trivial, trivial, trivial, trivial, trivial⟩
  have hdepth : lookalikes.toJson.depth < 128 := by decide +kernel
  obtain ⟨hagree, hlow, -⟩ := readings_agree_iff hd
  obtain ⟨-, -, hlimit, -⟩ := readings_agree_iff (hasNoDoubles_tower 124)
  obtain ⟨-, -, -, hhigh⟩ := readings_agree_iff (hasNoDoubles_tower 125)
  rw [depth_tower] at hlimit hhigh
  exact ⟨⟨hd, hdepth, hagree.2 (Nat.ne_of_lt hdepth), hlow hdepth .yaml⟩, (hlimit rfl).1, (hlimit rfl).2,
    hhigh (by decide) .yaml⟩

theorem readings_differ_tower :
    (tower 124).info.HasNoDoubles ∧
      Format.yaml.read? ((tower 124).render .yaml) ≠ Format.json.read? ((tower 124).render .json) := by
  have hd := hasNoDoubles_tower 124
  refine ⟨hd, ?_⟩
  rw [read?_render_yaml hd, read?_render_json hd, depth_tower]
  simp [Yaml.Node.depthLimit, nestingLimit]

end Document

end AnnotatedApi
