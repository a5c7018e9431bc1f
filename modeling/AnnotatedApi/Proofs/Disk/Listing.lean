import AnnotatedApi.Proofs.Disk.Paths
import AnnotatedApi.Proofs.OrderedMap

/-! Trees in which each directory lists its entries once, in any order. Main statement: paths lead to
the same entries, up to the order in which these list theirs. -/
namespace AnnotatedApi

theorem Entries.exists_mem_of_mem_keys {α : Type} {s : String} {es : List (String × α)}
    (h : s ∈ keys es) : ∃ e, (s, e) ∈ es := by
  simpa [keys] using h

/-- Names in a directory are plain and differ from each other, in every directory. -/
inductive Entry.WellFormed : Entry → Prop where
  | file (bytes : ByteArray) : WellFormed (.file bytes)
  | directory {es : List (String × Entry)} (nodup : (Entries.keys es).Nodup)
      (plain : ∀ s ∈ Entries.keys es, Path.IsPlain s) (inner : ∀ p ∈ es, WellFormed p.2) :
      WellFormed (.directory es)

namespace Entry

variable {e e' : Entry} {es es' : List (String × Entry)} {s : String} {names : List String}

theorem WellFormed.of_mem (h : (Entry.directory es).WellFormed) (hmem : (s, e) ∈ es) :
    Path.IsPlain s ∧ e.WellFormed := by
  cases h with
  | directory _ plain inner => exact ⟨plain s (List.mem_map.2 ⟨_, hmem, rfl⟩), inner _ hmem⟩

theorem WellFormed.mem_iff (h : (Entry.directory es).WellFormed) :
    (s, e) ∈ es ↔ Entries.lookup s es = some e := by
  cases h with
  | directory nodup => exact Entries.mem_iff_lookup nodup

theorem WellFormed.of_get? (h : e.WellFormed) (hget : e.get? names = some e') :
    (∀ s ∈ names, Path.IsPlain s) ∧ e'.WellFormed := by
  induction names generalizing e with
  | nil => exact ⟨by simp, Option.some.inj hget ▸ h⟩
  | cons s names ih =>
    cases e with
    | file bytes => cases hget
    | directory es =>
      obtain ⟨inner, hlookup, hinner⟩ := Option.bind_eq_some_iff.1 hget
      obtain ⟨hs, hwell⟩ := h.of_mem (h.mem_iff.2 hlookup)
      obtain ⟨hnames, hwell'⟩ := ih hwell hinner
      exact ⟨List.forall_mem_cons.2 ⟨hs, hnames⟩, hwell'⟩

/-- The same tree, with the entries of each directory listed in another order. Entries are compared by
name, since no name stands twice in a well-formed directory. -/
inductive Relisted : Entry → Entry → Prop where
  | file (bytes : ByteArray) : Relisted (.file bytes) (.file bytes)
  | directory {es es' : List (String × Entry)} (keys : (Entries.keys es).Perm (Entries.keys es'))
      (inner : ∀ {s e e'}, (s, e) ∈ es → (s, e') ∈ es' → Relisted e e') :
      Relisted (.directory es) (.directory es')

theorem Relisted.refl (h : e.WellFormed) : Relisted e e := by
  induction h with
  | file bytes => exact .file bytes
  | directory nodup _ _ ih =>
    refine .directory (.refl _) fun {s e e'} hmem hmem' => ?_
    rw [Entries.mem_iff_lookup nodup] at hmem'
    rw [(Entries.mem_iff_lookup nodup).1 hmem] at hmem'
    cases hmem'
    exact ih _ hmem

theorem Relisted.of_perm (hes : (Entry.directory es).WellFormed) (h : es.Perm es') :
    Relisted (Entry.directory es) (Entry.directory es') := by
  refine .directory (h.map Prod.fst) fun hmem hmem' => ?_
  have hlookup := hes.mem_iff.1 (h.mem_iff.2 hmem')
  rw [hes.mem_iff.1 hmem] at hlookup
  cases hlookup
  exact .refl (hes.of_mem hmem).2

theorem Relisted.wellFormed (h : Relisted e e') (he : e.WellFormed) : e'.WellFormed := by
  induction h with
  | file bytes => exact he
  | directory keys _ ih =>
    cases he with
    | directory nodup plain inner =>
      refine .directory (keys.nodup_iff.1 nodup) (fun s hs => plain s (keys.mem_iff.2 hs)) fun p hp => ?_
      obtain ⟨e, hmem⟩ := Entries.exists_mem_of_mem_keys (keys.mem_iff.2 (List.mem_map_of_mem hp))
      exact ih hmem hp (inner _ hmem)

theorem Relisted.lookup (h : Relisted (Entry.directory es) (Entry.directory es'))
    (hes : (Entry.directory es).WellFormed) (s : String) :
    Option.Rel Relisted (Entries.lookup s es) (Entries.lookup s es') := by
  have hes' := h.wellFormed hes
  cases h with
  | directory keys inner =>
    cases hlookup : Entries.lookup s es with
    | none =>
      cases hlookup' : Entries.lookup s es' with
      | none => exact .none
      | some e' =>
        have hkey := keys.mem_iff.2 (List.mem_map_of_mem (hes'.mem_iff.2 hlookup'))
        obtain ⟨e, hmem⟩ := Entries.exists_mem_of_mem_keys hkey
        rw [hes.mem_iff.1 hmem] at hlookup
        cases hlookup
    | some e =>
      have hmem := hes.mem_iff.2 hlookup
      obtain ⟨e', hmem'⟩ := Entries.exists_mem_of_mem_keys (keys.mem_iff.1 (List.mem_map_of_mem hmem))
      rw [hes'.mem_iff.1 hmem']
      exact .some (inner hmem hmem')

theorem Relisted.get? (h : Relisted e e') (he : e.WellFormed) (names : List String) :
    Option.Rel Relisted (e.get? names) (e'.get? names) := by
  induction names generalizing e e' with
  | nil => exact .some h
  | cons s names ih =>
    cases h with
    | file bytes => exact .none
    | @directory es es' keys inner =>
      have hlookup := Relisted.lookup (.directory keys inner) he s
      have hinner : ∀ e, Entries.lookup s es = some e → e.WellFormed :=
        fun e hs => (he.of_mem (he.mem_iff.2 hs)).2
      simp only [Entry.get?]
      generalize Entries.lookup s es = found at hlookup hinner
      generalize Entries.lookup s es' = found' at hlookup
      cases hlookup with
      | none => exact .none
      | some hsame => exact ih hsame (hinner _ rfl)

end Entry

namespace Disk

variable {d d' : Disk}

private theorem follow?_eq_of_isDirectoryAt_eq
    (h : ∀ names, d'.isDirectoryAt names = d.isDirectoryAt names) (place segments : List String) :
    d'.follow? place segments = d.follow? place segments := by
  induction segments generalizing place with
  | nil => rfl
  | cons s segments ih => simp only [follow?, h, ih]

/-- On a relisted disk each path leads to the same entry, up to its listing. -/
theorem find?_of_relisted (hd : d.root.WellFormed) (hroot : Entry.Relisted d.root d'.root)
    (hhere : d'.here = d.here) (path : String) :
    Option.Rel Entry.Relisted (d.find? path) (d'.find? path) := by
  have hdirectory : ∀ names, d'.isDirectoryAt names = d.isDirectoryAt names := by
    intro names
    have hget := hroot.get? hd names
    unfold isDirectoryAt
    generalize d.root.get? names = found at hget
    generalize d'.root.get? names = found' at hget
    cases hget with
    | none => rfl
    | some hsame => cases hsame <;> rfl
  have hplace : d'.place? path = d.place? path := by
    simp only [place?, start, hhere, follow?_eq_of_isDirectoryAt_eq hdirectory]
  rw [find?, find?, hplace]
  cases d.place? path with
  | none => exact .none
  | some place => exact hroot.get? hd place

end Disk

end AnnotatedApi
