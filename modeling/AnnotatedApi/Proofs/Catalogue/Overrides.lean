import AnnotatedApi.Proofs.Catalogue.History

/-! Overrides as an operation on paths. What an application does to a path depends on that path alone, so
the laws of applications are those of the search for a first override. Main statement: to apply one list
after another is to apply the two as one list with the later one in front, and each application changes
nothing but the servers of the paths that it covers. -/
namespace AnnotatedApi

namespace ServerOverride

variable {o : ServerOverride} {os : List ServerOverride} {path : String}

def Covers (o : ServerOverride) (path : String) : Prop := o.root.toList <+: path.toList

instance (o : ServerOverride) (path : String) : Decidable (o.Covers path) :=
  inferInstanceAs (Decidable (_ <+: _))

inductive FirstCovering (path : String) : List ServerOverride → ServerOverride → Prop
  | head {o : ServerOverride} {os : List ServerOverride} :
      o.Covers path → FirstCovering path (o :: os) o
  | tail {o o' : ServerOverride} {os : List ServerOverride} :
      ¬o'.Covers path → FirstCovering path os o → FirstCovering path (o' :: os) o

theorem FirstCovering.server?_eq (h : FirstCovering path os o) : server? path os = some o.server := by
  induction h with
  | head ho =>
    unfold server?
    rw [List.find?_cons_of_pos (by simpa [Covers] using ho), Option.map_some]
  | tail ho _ ih =>
    unfold server?
    rw [List.find?_cons_of_neg (by simpa [Covers] using ho)]
    exact ih

private theorem server?_eq_none (h : ∀ o ∈ os, ¬o.Covers path) : server? path os = none := by
  unfold server?
  rw [List.find?_eq_none.2, Option.map_none]
  intro o ho
  simpa [Covers] using h o ho

theorem server?_append (path : String) (a b : List ServerOverride) :
    server? path (a ++ b) = (server? path a).or (server? path b) := by
  unfold server?
  rw [List.find?_append, Option.map_or]

/-- A path with the server that the overrides give it. -/
def serve (os : List ServerOverride) (path : String) (item : PathItem) : PathItem :=
  { item with servers := ((server? path os).map ([·])).or item.servers }

theorem serve_serve (a b : List ServerOverride) (path : String) (item : PathItem) :
    serve b path (serve a path item) = serve (b ++ a) path item := by
  unfold serve
  rw [server?_append, Option.map_or, Option.or_assoc]

theorem serve_append_self (a : List ServerOverride) : serve (a ++ a) = serve a := by
  funext path item
  unfold serve
  rw [server?_append, Option.or_self]

theorem operation?_serve (os : List ServerOverride) (path : String) (item : PathItem) (m : Method) :
    (serve os path item).operation? m = item.operation? m := by
  cases m <;> rfl

theorem FirstCovering.servers_serve (h : FirstCovering path os o) (item : PathItem) :
    (serve os path item).servers = some [o.server] := by
  unfold serve
  rw [h.server?_eq]
  rfl

theorem servers_serve_of_not_covers (h : ∀ o ∈ os, ¬o.Covers path) (item : PathItem) :
    (serve os path item).servers = item.servers := by
  unfold serve
  rw [server?_eq_none h]
  rfl

structure Overridden (os : List ServerOverride) (path : String) (old new : PathItem) : Prop where
  operations : ∀ m, new.operation? m = old.operation? m
  covered : ∀ o, FirstCovering path os o →
    new.servers = some [{ url := o.url, description := some (o.description.getD "") }]
  uncovered : (∀ o ∈ os, ¬o.Covers path) → new.servers = old.servers

theorem overridden_serve (os : List ServerOverride) (path : String) (item : PathItem) :
    Overridden os path item (serve os path item) where
  operations := operation?_serve os path item
  covered _ h := h.servers_serve item
  uncovered h := servers_serve_of_not_covers h item

end ServerOverride

open ServerOverride

theorem applyOverrides_eq (os : List ServerOverride) (paths : OrderedMap PathItem) :
    applyOverrides os paths = paths.mapValues (serve os) := by
  unfold applyOverrides
  congr
  funext path item
  unfold serve server?
  cases os.find? (·.root.toList <+: path.toList) <;> rfl

/-- Of two applications the later one wins, and where it does not cover a path the earlier one stays. An
application keeps the paths with their order and operations. It gives a path the server of the first
override that covers it, alone, and leaves the servers of other paths as they were. -/
theorem applyOverrides_compose (a b : List ServerOverride) (paths : OrderedMap PathItem) :
    applyOverrides b (applyOverrides a paths) = applyOverrides (b ++ a) paths ∧
      applyOverrides a (applyOverrides a paths) = applyOverrides a paths ∧
      (applyOverrides a paths).keys = paths.keys ∧
      List.Forall₂ (fun old new => new.1 = old.1 ∧ Overridden a old.1 old.2 new.2) paths.entries
        (applyOverrides a paths).entries := by
  have hcompose : ∀ b, applyOverrides b (applyOverrides a paths) = applyOverrides (b ++ a) paths := by
    intro b
    simp only [applyOverrides_eq, OrderedMap.mapValues_mapValues, serve_serve]
  refine ⟨hcompose b, ?_, ?_, ?_⟩
  · rw [hcompose a, applyOverrides_eq, serve_append_self, applyOverrides_eq]
  · rw [applyOverrides_eq, OrderedMap.keys_mapValues]
  · rw [applyOverrides_eq]
    refine List.forall₂_map_right_iff.2 (List.forall₂_same.2 ?_)
    intro entry _
    exact ⟨rfl, overridden_serve a entry.1 entry.2⟩

/-- A longer root behind a shorter one that hides it, and one root twice. -/
def shopOverrides : List ServerOverride :=
  [{ root := "/shop", url := "https://shop" }, { root := "/shop/cart", url := "https://cart" },
    { root := "/shop", url := "https://old", description := some "Old shop" }]

def proxyOverrides : List ServerOverride :=
  [{ root := "/shop/cart", url := "https://proxy", description := some "Proxy" }]

def shopPaths : OrderedMap PathItem :=
  .ofList [("/shop/cart", {}), ("/shop", { servers := some [] }), ("/about", { servers := some [] })]

theorem applyOverrides_compose_shop :
    (applyOverrides proxyOverrides (applyOverrides shopOverrides shopPaths)).entries.map
        (fun e => (e.1, e.2.servers)) =
      [("/shop/cart", some [⟨"https://proxy", some "Proxy"⟩]),
        ("/shop", some [⟨"https://shop", some ""⟩]), ("/about", some [])] ∧
    applyOverrides proxyOverrides (applyOverrides shopOverrides shopPaths) =
      applyOverrides (proxyOverrides ++ shopOverrides) shopPaths := by
  exact ⟨by decide +kernel, (applyOverrides_compose shopOverrides proxyOverrides shopPaths).1⟩

end AnnotatedApi
