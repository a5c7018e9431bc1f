import AnnotatedApi.Proofs.Annotation.Naming
import AnnotatedApi.Proofs.Catalogue.Grouping
import AnnotatedApi.Proofs.Model.Compilation
import AnnotatedApi.Proofs.Route.Compilation

/-! Typedefs without a name. A tag that was read says itself that its name is missing, and the errors of
tags are looked at before anything else. Main statement: blocks that were read are never refused because
no typedef is there, and a typedef without a name makes its block fail with the errors of a tag. -/
namespace AnnotatedApi

open Outcome

namespace Block

/-- In a block that was read, a tag whose title asks for a name has one or has errors. -/
def NamesOrErrors (b : Block) : Prop :=
  ∀ t ∈ b.tags, t.title ∈ Tag.namedTitles → t.errors = [] → ∃ n, t.properName? = some n

theorem namesOrErrors_parse (body : List Char) : (parse body).NamesOrErrors := by
  intro t ht htitle herrors
  obtain ⟨raw, -, hcut⟩ := exists_of_forall₂ (forall₂_cut body) ht
  obtain ⟨n, hn, hne⟩ := (hcut.named htitle).2 (by rw [herrors]; exact List.not_mem_nil)
  refine ⟨n, ?_⟩
  rw [Tag.properName?, Option.mem_def.1 hn, Option.filter_some, if_pos (by simpa using hne)]

variable {b : Block}

theorem NamesOrErrors.typedefs_ne_nil (h : b.NamesOrErrors) (herrored : b.errored? = none)
    (hkind : b.kind = .schema) : b.typedefs ≠ [] := by
  have htag : b.hasTag "typedef" := by
    unfold kind at hkind
    by_contra hnot
    rw [if_neg hnot] at hkind
    split at hkind <;> cases hkind
  obtain ⟨t, ht, htitle⟩ : ∃ t ∈ b.tags, t.title = "typedef" := by simpa [hasTag] using htag
  obtain ⟨n, hn⟩ := h t ht (by rw [htitle]; decide) (errored?_eq_none_iff.1 herrored t ht)
  have hview : t.typedef? = some ⟨n, t.description⟩ := by simp [Tag.typedef?, htitle, hn]
  exact List.ne_nil_of_mem (List.mem_filterMap.2 ⟨t, ht, hview⟩)

theorem NamesOrErrors.compile_ne (h : b.NamesOrErrors) (summary : String) :
    b.compile ≠ .error (.missingTypedef summary) := by
  intro hb
  cases hkind : b.kind with
  | route =>
    rw [compilesAs_route b hkind] at hb
    rcases bind_eq_error.1 hb with hb | ⟨_, -, ⟨⟩⟩
    obtain ⟨-, -, hfault⟩ := settled_of_or Route.Compilable.exists_describes
      (fun _ => Route.Fault.compile_eq) (Route.compilable_or_fault b)
    cases (hfault _).1 hb
  | schema =>
    rw [compilesAs_model b hkind] at hb
    rcases bind_eq_error.1 hb with hb | ⟨_, -, ⟨⟩⟩
    obtain ⟨-, -, hfault⟩ := settled_of_or Model.Compilable.exists_describes
      (fun _ => Model.Fault.compile_eq) (Model.compilable_or_fault b)
    cases (hfault _).1 hb with
    | missingTypedef herrored hnone => exact h.typedefs_ne_nil herrored hkind hnone
  | inert =>
    rw [compile, hkind] at hb
    cases hb

private theorem kind_ne_inert {t : Tag} (ht : t ∈ b.tags) (htitle : t.title = "typedef") :
    b.kind ≠ .inert :=
  fun h => (kind_eq_inert_iff.1 h t ht).2 htitle

theorem compile_of_errored {t : Tag} (herrored : b.errored? = some t) (hkind : b.kind ≠ .inert) :
    b.compile = .error (.tagErrors t.title t.errors) := by
  cases hk : b.kind with
  | route => exact compilesAs_route.compile_eq_error hk (Route.compile_of_errored herrored)
  | schema => exact compilesAs_model.compile_eq_error hk (Model.compile_of_errored herrored)
  | inert => exact absurd hk hkind

theorem NamesOrErrors.exists_errored (h : b.NamesOrErrors) {t : Tag} (ht : t ∈ b.tags)
    (htitle : t.title = "typedef") (hname : t.properName? = none) : ∃ t', b.errored? = some t' := by
  cases he : b.errored? with
  | some t' => exact ⟨t', rfl⟩
  | none =>
    obtain ⟨n, hn⟩ := h t ht (by rw [htitle]; decide) (errored?_eq_none_iff.1 he t ht)
    cases hname.symm.trans hn

end Block

namespace Catalogue

theorem exists_of_ofBlocks_eq_error {blocks : List Block} {e : Error}
    (h : ofBlocks blocks = .error e) : ∃ b ∈ blocks, b.compile = .error e := by
  rcases firstFailure_of_ofBlocks_eq_error h with hfirst | ⟨-, hfirst⟩ <;>
  · obtain ⟨before, b, after, rfl, -, hb, -⟩ := hfirst
    exact ⟨b, by simp, hb⟩

/-- A single block that fails decides how grouping fails. -/
theorem ofBlocks_eq_error {blocks : List Block} {b : Block} {e : Error} (hmem : b ∈ blocks)
    (hb : b.compile = .error e) (hothers : ∀ b' ∈ blocks, b' ≠ b → b'.Compiles) :
    ofBlocks blocks = .error e := by
  cases h : ofBlocks blocks with
  | ok r =>
    obtain ⟨o, ho⟩ := compiles_of_ofBlocks_eq_ok h b hmem
    cases hb.symm.trans ho
  | error e' =>
    obtain ⟨b', hmem', hb'⟩ := exists_of_ofBlocks_eq_error h
    by_cases heq : b' = b
    · rw [heq] at hb'
      cases hb.symm.trans hb'
      rfl
    · obtain ⟨o, ho⟩ := hothers b' hmem' heq
      cases hb'.symm.trans ho

/-- Every tag that is read is cut cleanly from its text. Grouping what was read never finds a model
without a typedef: a typedef without a name is reported by the errors of the first tag of its block that
has any, and grouping fails with them unless another block fails as well. -/
theorem ofBlocks_never_missingTypedef (text : String) :
    List.Forall₂ (fun body b => List.Forall₂ Tag.Cut (Block.tagTexts body) b.tags)
        (Comments.extract text.toList).bodies (Annotations.parse text).blocks ∧
      (∀ summary, ofBlocks (Annotations.parse text).blocks ≠ .error (.missingTypedef summary)) ∧
      ∀ b ∈ (Annotations.parse text).blocks, ∀ t ∈ b.tags,
        t.title = "typedef" → t.properName? = none →
          ∃ t', b.errored? = some t' ∧ b.compile = .error (.tagErrors t'.title t'.errors) ∧
            ((∀ b' ∈ (Annotations.parse text).blocks, b' ≠ b → b'.Compiles) →
              ofBlocks (Annotations.parse text).blocks = .error (.tagErrors t'.title t'.errors)) := by
  have hblocks : ∀ b ∈ (Annotations.parse text).blocks, b.NamesOrErrors := by
    intro b hb
    obtain ⟨body, -, rfl⟩ := List.mem_map.1 hb
    exact Block.namesOrErrors_parse body
  refine ⟨Annotations.forall₂_cut text, ?_, ?_⟩
  · intro summary h
    obtain ⟨b, hb, hcompile⟩ := exists_of_ofBlocks_eq_error h
    exact (hblocks b hb).compile_ne summary hcompile
  · intro b hb t ht htitle hname
    obtain ⟨t', herrored⟩ := (hblocks b hb).exists_errored ht htitle hname
    have hcompile := Block.compile_of_errored herrored (Block.kind_ne_inert ht htitle)
    exact ⟨t', herrored, hcompile, ofBlocks_eq_error hb hcompile⟩

/-- A typedef whose name is nothing but a default, before a property that is well formed. -/
def unnamedText : String := "/** @typedef [=x] - y\n * @property \x7bstring\x7d a */"

theorem ofBlocks_never_missingTypedef_default :
    (∃ b ∈ (Annotations.parse unnamedText).blocks, ∃ t ∈ b.tags,
      t.title = "typedef" ∧ t.properName? = none) ∧
    ofBlocks (Annotations.parse unnamedText).blocks =
      .error (.tagErrors "typedef" ["Missing or invalid tag name"]) := by
  have hlength : (Annotations.parse unnamedText).blocks.length = 1 := by decide +kernel
  have hnameless : ∃ b ∈ (Annotations.parse unnamedText).blocks, ∃ t ∈ b.tags,
      t.title = "typedef" ∧ t.properName? = none := by decide +kernel
  have herrors : ∀ b ∈ (Annotations.parse unnamedText).blocks,
      b.errored?.map (fun t => (t.title, t.errors)) =
        some ("typedef", ["Missing or invalid tag name"]) := by decide +kernel
  refine ⟨hnameless, ?_⟩
  obtain ⟨b, hb, t, ht, htitle, hname⟩ := hnameless
  obtain ⟨t', herrored, -, hgroup⟩ :=
    (ofBlocks_never_missingTypedef unnamedText).2.2 b hb t ht htitle hname
  obtain ⟨b₁, hb₁⟩ := List.length_eq_one_iff.1 hlength
  have hsingle : ∀ b' ∈ (Annotations.parse unnamedText).blocks, b' ≠ b → b'.Compiles := by
    rw [hb₁] at hb ⊢
    intro b' hb' hne
    exact absurd ((List.mem_singleton.1 hb').trans (List.mem_singleton.1 hb).symm) hne
  have hshown := herrors b hb
  rw [herrored] at hshown
  obtain ⟨htitle', herrors'⟩ := Prod.mk.inj (Option.some.inj hshown)
  rw [hgroup hsingle, htitle', herrors']

end Catalogue

end AnnotatedApi
