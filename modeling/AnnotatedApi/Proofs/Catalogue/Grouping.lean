import AnnotatedApi.Catalogue
import AnnotatedApi.Proofs.Outcome

/-! Grouping blocks by what they define, routes before models. A route changes only the paths and a
model only the schemas, so additions of the two kinds commute. Main statement: grouping makes the
catalogue of the source order, inert blocks do not matter, and of the blocks that do not compile the
first route is reported, or else the first model. -/
namespace AnnotatedApi

open Outcome

namespace Definition

def kind : Definition → BlockKind
  | route _ => .route
  | model _ => .schema

def route? : Definition → Option Route
  | route r => some r
  | model _ => none

def model? : Definition → Option Model
  | route _ => none
  | model m => some m

end Definition

namespace Block

/-- No tag is an event or a typedef; the tags may have errors. -/
def Inert (b : Block) : Prop := ∀ t ∈ b.tags, t.title ≠ "event" ∧ t.title ≠ "typedef"

instance (b : Block) : Decidable b.Inert := inferInstanceAs (Decidable (∀ t ∈ b.tags, _))

def Compiles (b : Block) : Prop := ∃ o, b.compile = .ok o

instance (b : Block) : Decidable b.Compiles :=
  decidable_of_iff (b.compile.toOption.isSome = true) (by
    unfold Compiles
    cases b.compile <;> simp [Except.toOption])

def definition? (b : Block) : Option Definition := b.compile.toOption.join

theorem definition?_of_compile_eq_ok {b : Block} {o : Option Definition} (h : b.compile = .ok o) :
    b.definition? = o := by
  rw [definition?, h]
  rfl

theorem kind_eq_inert_iff {b : Block} : b.kind = .inert ↔ b.Inert := by
  have hany : ∀ title, b.hasTag title = false ↔ ∀ t ∈ b.tags, t.title ≠ title := by
    intro title
    simp [hasTag]
  have hkind : b.kind = .inert ↔ b.hasTag "event" = false ∧ b.hasTag "typedef" = false := by
    unfold kind
    cases b.hasTag "event" <;> cases b.hasTag "typedef" <;> simp
  rw [hkind, hany, hany]
  exact ⟨fun h t ht => ⟨h.1 t ht, h.2 t ht⟩, fun h => ⟨fun t ht => (h t ht).1, fun t ht => (h t ht).2⟩⟩

theorem compiles_of_inert {b : Block} (h : b.Inert) : b.Compiles := by
  refine ⟨none, ?_⟩
  rw [compile, kind_eq_inert_iff.2 h]
  rfl

/-- Blocks of the kind `k` compile as `f` says, and define what `wrap` makes of the result. -/
def CompilesAs {α : Type} (k : BlockKind) (f : Block → Except Error α) (wrap : α → Definition) : Prop :=
  ∀ b : Block, b.kind = k → b.compile = f b >>= fun a => pure (some (wrap a))

theorem compilesAs_route : CompilesAs .route Route.compile .route := by
  intro b hb
  rw [compile, hb]

theorem compilesAs_model : CompilesAs .schema Model.compile .model := by
  intro b hb
  rw [compile, hb]

variable {α : Type} {k : BlockKind} {f : Block → Except Error α} {wrap : α → Definition} {b : Block}

theorem CompilesAs.compile_eq_ok_iff (hf : CompilesAs k f wrap) (hk : b.kind = k)
    {o : Option Definition} : b.compile = .ok o ↔ ∃ a, f b = .ok a ∧ some (wrap a) = o := by
  rw [hf b hk, bind_eq_ok]
  simp only [pure_eq_ok]

theorem CompilesAs.compiles_iff (hf : CompilesAs k f wrap) (hk : b.kind = k) :
    b.Compiles ↔ ∃ a, f b = .ok a := by
  simp [Compiles, hf.compile_eq_ok_iff hk]

theorem CompilesAs.compile_eq_error (hf : CompilesAs k f wrap) (hk : b.kind = k) {e : Error}
    (h : f b = .error e) : b.compile = .error e := by
  rw [hf b hk, h]
  rfl

private theorem kind_of_compile_eq_ok {d : Definition} (h : b.compile = .ok (some d)) :
    d.kind = b.kind := by
  cases hk : b.kind with
  | route =>
    obtain ⟨r, _, hd⟩ := (compilesAs_route.compile_eq_ok_iff hk).1 h
    cases hd
    rfl
  | schema =>
    obtain ⟨m, _, hd⟩ := (compilesAs_model.compile_eq_ok_iff hk).1 h
    cases hd
    rfl
  | inert =>
    rw [compile, hk] at h
    cases pure_eq_ok.1 h

end Block

/-- What the blocks that compile define, in source order. -/
def definitions (blocks : List Block) : List Definition := blocks.filterMap Block.definition?

/-- The first of all blocks of one kind that do not compile, with its error. -/
def FirstFailure (k : BlockKind) (blocks : List Block) (e : Error) : Prop :=
  ∃ before b after, blocks = before ++ b :: after ∧ b.kind = k ∧ b.compile = .error e ∧
    ∀ b' ∈ before, b'.kind = k → b'.Compiles

inductive DropsInert : List Block → List Block → Prop
  | nil : DropsInert [] []
  | keep {blocks kept : List Block} (b : Block) :
      DropsInert blocks kept → DropsInert (b :: blocks) (b :: kept)
  | drop {blocks kept : List Block} {b : Block} :
      b.Inert → DropsInert blocks kept → DropsInert (b :: blocks) kept

theorem DropsInert.filter_eq {blocks kept : List Block} (h : DropsInert blocks kept) {k : BlockKind}
    (hk : k ≠ .inert) : kept.filter (·.kind = k) = blocks.filter (·.kind = k) := by
  induction h with
  | nil => rfl
  | keep b _ ih => rw [List.filter_cons, List.filter_cons, ih]
  | drop hb _ ih =>
    have hne : ¬BlockKind.inert = k := fun he => hk he.symm
    rw [List.filter_cons, Block.kind_eq_inert_iff.2 hb, ih]
    simp [hne]

section Traversal

variable {α : Type} {k : BlockKind} {f : Block → Except Error α} {wrap : α → Definition}
  {blocks : List Block}

/-- The blocks of one kind define what all blocks define of that kind. -/
theorem exists_mapM_of_compiles (hf : Block.CompilesAs k f wrap) (h : ∀ b ∈ blocks, b.Compiles) :
    ∃ as, (blocks.filter (·.kind = k)).mapM f = .ok as ∧
      as.map wrap = (definitions blocks).filter (·.kind = k) := by
  induction blocks with
  | nil => exact ⟨[], rfl, rfl⟩
  | cons b blocks ih =>
    obtain ⟨⟨o, ho⟩, hblocks⟩ := List.forall_mem_cons.1 h
    obtain ⟨as, has, hdefs⟩ := ih hblocks
    have hb := Block.definition?_of_compile_eq_ok ho
    by_cases hk : b.kind = k
    · obtain ⟨a, ha, rfl⟩ := (hf.compile_eq_ok_iff hk).1 ho
      have hkind : (wrap a).kind = k := (Block.kind_of_compile_eq_ok ho).trans hk
      refine ⟨a :: as, ?_, ?_⟩
      · rw [List.filter_cons_of_pos (by simpa using hk), List.mapM_cons, ha, has]
        rfl
      · rw [definitions, List.filterMap_cons_some hb, List.filter_cons_of_pos (by simpa using hkind),
          List.map_cons, hdefs, definitions]
    · refine ⟨as, ?_, ?_⟩
      · rw [List.filter_cons_of_neg (by simpa using hk), has]
      · cases o with
        | none => rw [definitions, List.filterMap_cons_none hb, hdefs, definitions]
        | some d =>
          have hkind : d.kind ≠ k := by rwa [Block.kind_of_compile_eq_ok ho]
          rw [definitions, List.filterMap_cons_some hb, List.filter_cons_of_neg (by simpa using hkind),
            hdefs, definitions]

theorem compiles_of_mapM_eq_ok (hf : Block.CompilesAs k f wrap) {as : List α}
    (h : (blocks.filter (·.kind = k)).mapM f = .ok as) : ∀ b ∈ blocks, b.kind = k → b.Compiles := by
  intro b hb hk
  have hmem : b ∈ blocks.filter (·.kind = k) := List.mem_filter.2 ⟨hb, by simpa using hk⟩
  obtain ⟨a, _, ha⟩ := exists_result_of_mapM_eq_ok h hmem
  exact (hf.compiles_iff hk).2 ⟨a, ha⟩

theorem firstFailure_of_mapM_eq_error (hf : Block.CompilesAs k f wrap) {e : Error}
    (h : (blocks.filter (·.kind = k)).mapM f = .error e) : FirstFailure k blocks e := by
  obtain ⟨before, b, after, hsplit, hbefore, hb⟩ := exists_of_mapM_eq_error h
  obtain ⟨l₁, l₂, rfl, rfl, hl₂⟩ := List.filter_eq_append_iff.1 hsplit
  obtain ⟨l₃, l₄, rfl, hl₃, hk, _⟩ := List.filter_eq_cons_iff.1 hl₂
  have hk : b.kind = k := by simpa using hk
  refine ⟨l₁ ++ l₃, b, l₄, by rw [List.append_assoc], hk, hf.compile_eq_error hk hb, ?_⟩
  intro b' hb' hk'
  rcases List.mem_append.1 hb' with hb' | hb'
  · exact (hf.compiles_iff hk').2 (hbefore b' (List.mem_filter.2 ⟨hb', by simpa using hk'⟩))
  · exact absurd (by simpa using hk') (hl₃ b' hb')

end Traversal

namespace Catalogue

theorem addAll_fst (c : Catalogue) (ds : List Definition) : (c.addAll ds).1 = ds.foldl add c := by
  induction ds generalizing c with
  | nil => rfl
  | cons d ds ih => exact ih (c.add d)

private theorem add_model_add_route (c : Catalogue) (m : Model) (r : Route) :
    (c.add (.model m)).add (.route r) = (c.add (.route r)).add (.model m) := rfl

private theorem foldl_add_model (c : Catalogue) (m : Model) {ds : List Definition}
    (h : ∀ d ∈ ds, d.kind = .route) :
    ds.foldl add (c.add (.model m)) = (ds.foldl add c).add (.model m) := by
  induction ds generalizing c with
  | nil => rfl
  | cons d ds ih =>
    obtain ⟨hd, hds⟩ := List.forall_mem_cons.1 h
    cases d with
    | route r => rw [List.foldl_cons, add_model_add_route, ih _ hds, List.foldl_cons]
    | model m' => cases hd

/-- Routes may be moved in front of the models. -/
theorem foldl_add_eq (c : Catalogue) (ds : List Definition) :
    (ds.filter (·.kind = .route) ++ ds.filter (·.kind = .schema)).foldl add c = ds.foldl add c := by
  induction ds generalizing c with
  | nil => rfl
  | cons d ds ih =>
    cases d with
    | route r => exact ih (c.add (.route r))
    | model m =>
      -- The model passes over all routes behind it.
      have hroutes : ∀ d ∈ ds.filter (·.kind = .route), d.kind = .route := by
        intro d hd
        simpa using (List.mem_filter.1 hd).2
      have hmove := foldl_add_model c m hroutes
      have htail := ih (c.add (.model m))
      rw [List.foldl_append, hmove] at htail
      rw [List.foldl_cons, ← htail, List.foldl_append]
      rfl

variable {blocks : List Block}

theorem extend_of_compiles (c : Catalogue) (h : ∀ b ∈ blocks, b.Compiles) :
    (c.extend blocks).error = none ∧ (c.extend blocks).catalogue = (definitions blocks).foldl add c := by
  induction blocks generalizing c with
  | nil => exact ⟨rfl, rfl⟩
  | cons b blocks ih =>
    obtain ⟨⟨o, ho⟩, hblocks⟩ := List.forall_mem_cons.1 h
    have hb := Block.definition?_of_compile_eq_ok ho
    rw [extend, ho]
    cases o with
    | none =>
      rw [definitions, List.filterMap_cons_none hb]
      exact ih c hblocks
    | some d =>
      rw [definitions, List.filterMap_cons_some hb]
      exact ih (c.add d) hblocks

theorem exists_ofBlocks_of_compiles (h : ∀ b ∈ blocks, b.Compiles) :
    ∃ warnings, ofBlocks blocks = .ok ((definitions blocks).foldl add {}, warnings) := by
  obtain ⟨routes, hroutes, hr⟩ := exists_mapM_of_compiles Block.compilesAs_route h
  obtain ⟨models, hmodels, hm⟩ := exists_mapM_of_compiles Block.compilesAs_model h
  refine ⟨(({} : Catalogue).addAll (routes.map .route ++ models.map .model)).2, ?_⟩
  rw [← foldl_add_eq, ← hr, ← hm, ← addAll_fst, ofBlocks, hroutes, hmodels]
  rfl

theorem compiles_of_ofBlocks_eq_ok {c : Catalogue} {warnings : List Warning}
    (h : ofBlocks blocks = .ok (c, warnings)) : ∀ b ∈ blocks, b.Compiles := by
  obtain ⟨routes, hroutes, h⟩ := bind_eq_ok.1 h
  obtain ⟨models, hmodels, _⟩ := bind_eq_ok.1 h
  intro b hb
  cases hk : b.kind with
  | route => exact compiles_of_mapM_eq_ok Block.compilesAs_route hroutes b hb hk
  | schema => exact compiles_of_mapM_eq_ok Block.compilesAs_model hmodels b hb hk
  | inert => exact Block.compiles_of_inert (Block.kind_eq_inert_iff.1 hk)

theorem firstFailure_of_ofBlocks_eq_error {e : Error} (h : ofBlocks blocks = .error e) :
    FirstFailure .route blocks e ∨
      (∀ b ∈ blocks, b.kind = .route → b.Compiles) ∧ FirstFailure .schema blocks e := by
  unfold ofBlocks at h
  cases hroutes : (blocks.filter (·.kind = .route)).mapM Route.compile with
  | error e' =>
    rw [hroutes] at h
    cases h
    exact .inl (firstFailure_of_mapM_eq_error Block.compilesAs_route hroutes)
  | ok routes =>
    refine .inr ⟨compiles_of_mapM_eq_ok Block.compilesAs_route hroutes, ?_⟩
    rw [hroutes] at h
    cases hmodels : (blocks.filter (·.kind = .schema)).mapM Model.compile with
    | error e' =>
      rw [hmodels] at h
      cases h
      exact firstFailure_of_mapM_eq_error Block.compilesAs_model hmodels
    | ok models =>
      rw [hmodels] at h
      cases h

theorem ofBlocks_of_dropsInert {kept : List Block} (h : DropsInert blocks kept) :
    ofBlocks kept = ofBlocks blocks := by
  unfold ofBlocks
  rw [h.filter_eq (by decide), h.filter_eq (by decide)]

/-- Grouping agrees with the source order where every block that is not inert compiles. Inert blocks may
be left out. Otherwise the first route that fails is reported, or else the first model. -/
theorem ofBlocks_agrees_with_extend (blocks : List Block) :
    ((∀ b ∈ blocks, ¬b.Inert → b.Compiles) →
      (ofBlocks blocks).map Prod.fst = .ok (({} : Catalogue).extend blocks).catalogue ∧
        (({} : Catalogue).extend blocks).error = none) ∧
    (∀ kept, DropsInert blocks kept → ofBlocks kept = ofBlocks blocks) ∧
    ((∃ b ∈ blocks, ¬b.Inert ∧ ¬b.Compiles) →
      ∃ e, ofBlocks blocks = .error e ∧
        (FirstFailure .route blocks e ∨
          (∀ b ∈ blocks, b.kind = .route → b.Compiles) ∧ FirstFailure .schema blocks e)) := by
  refine ⟨?_, fun kept => ofBlocks_of_dropsInert, ?_⟩
  · intro h
    have hall : ∀ b ∈ blocks, b.Compiles := fun b hb =>
      (em b.Inert).elim Block.compiles_of_inert (h b hb)
    obtain ⟨herror, hextend⟩ := extend_of_compiles {} hall
    obtain ⟨warnings, hblocks⟩ := exists_ofBlocks_of_compiles hall
    rw [hblocks, hextend]
    exact ⟨rfl, herror⟩
  · rintro ⟨b, hb, _, hfails⟩
    cases h : ofBlocks blocks with
    | ok r => exact absurd (compiles_of_ofBlocks_eq_ok h b hb) hfails
    | error e => exact ⟨e, rfl, firstFailure_of_ofBlocks_eq_error h⟩

/-- A block with an event that is also a typedef. -/
def petRoute (event : String) : Block where
  tags := [{ title := "event", description := event }, { title := "typedef", name := some "Pet" }]

def petModel (description : String) : Block where
  tags := [{ title := "typedef", name := some "Pet", description }]

def petNote : Block where
  tags := [{ title := "author", errors := ["unknown"] }]

/-- Models before and between routes, a path and a model that come twice, and inert blocks. -/
def petMix : List Block :=
  [petModel "old", petNote, petRoute "GET: /pets - list", petModel "new", petRoute "PUT: /pets - put",
    petNote]

/-- A model that fails before two routes that fail. -/
def petFaults : List Block :=
  [petNote, { tags := [{ title := "typedef" }] }, petRoute "GET /pets", petRoute "PUT /pets"]

theorem ofBlocks_agrees_with_extend_pets :
    ((∀ b ∈ petMix, ¬b.Inert → b.Compiles) ∧
      (ofBlocks petMix).map Prod.fst = .ok (({} : Catalogue).extend petMix).catalogue) ∧
    (DropsInert petMix [petModel "old", petRoute "GET: /pets - list", petModel "new",
        petRoute "PUT: /pets - put", petNote] ∧
      ofBlocks [petModel "old", petRoute "GET: /pets - list", petModel "new",
        petRoute "PUT: /pets - put", petNote] = ofBlocks petMix) ∧
    ((∃ b ∈ petFaults, ¬b.Inert ∧ ¬b.Compiles) ∧
      ∃ e, ofBlocks petFaults = .error e ∧
        (FirstFailure .route petFaults e ∨
          (∀ b ∈ petFaults, b.kind = .route → b.Compiles) ∧ FirstFailure .schema petFaults e)) := by
  have hcompiles : ∀ b ∈ petMix, ¬b.Inert → b.Compiles := by decide +kernel
  have hnote : petNote.Inert := by decide +kernel
  have hdrops : DropsInert petMix [petModel "old", petRoute "GET: /pets - list", petModel "new",
      petRoute "PUT: /pets - put", petNote] :=
    .keep _ (.drop hnote (.keep _ (.keep _ (.keep _ (.keep _ .nil)))))
  have hfaults : ∃ b ∈ petFaults, ¬b.Inert ∧ ¬b.Compiles := by decide +kernel
  exact ⟨⟨hcompiles, ((ofBlocks_agrees_with_extend petMix).1 hcompiles).1⟩,
    ⟨hdrops, (ofBlocks_agrees_with_extend petMix).2.1 _ hdrops⟩,
    hfaults, (ofBlocks_agrees_with_extend petFaults).2.2 hfaults⟩

end Catalogue

end AnnotatedApi
