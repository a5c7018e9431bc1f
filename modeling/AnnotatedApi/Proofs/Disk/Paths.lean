import AnnotatedApi.Disk.Basic
import AnnotatedApi.Proofs.Text.Bytes
import Mathlib.Data.List.Lex

/-! The components of a path and their order. Main statements: joining names to a path puts them behind its
components, and the joined path leads to the entry that the names lead to below the directory. -/
namespace AnnotatedApi

namespace Path

inductive Component where
  | root
  | here
  | up
  | name (s : String)
deriving DecidableEq

namespace Component

def rank : Component → Nat
  | root => 0
  | here => 1
  | up => 2
  | name _ => 3

/-- The order of components: first by kind, then names by their bytes. -/
inductive Before : Component → Component → Prop where
  | rank {a b : Component} (h : a.rank < b.rank) : Before a b
  | name {s t : String} (h : Text.bytes s < Text.bytes t) : Before (name s) (name t)

theorem Before.ne {a b : Component} (h : Before a b) : a ≠ b := by
  rintro rfl
  cases h with
  | rank h => exact Nat.lt_irrefl _ h
  | name h => exact List.lt_irrefl _ h

def ofSegment (s : String) : Component := if s = ".." then up else name s

end Component

/-- The components of a path. Void segments do not count, but a path may start with the
root or with a dot. -/
def components (path : String) : List Component :=
  (if isAbsolute path then [.root] else if (segments path).head? = some "." then [.here] else []) ++
    ((segments path).filter (!isVoid ·)).map .ofSegment

def Before (p q : String) : Prop := List.Lex Component.Before (components p) (components q)

theorem Before.ne {p q : String} (h : Before p q) : p ≠ q :=
  fun e => (List.Lex.imp (fun _ _ => Component.Before.ne) _ _ h).to_ne (congrArg components e)

structure IsPlain (s : String) : Prop where
  not_void : isVoid s = false
  ne_up : s ≠ ".."
  no_slash : '/' ∉ s.toList

instance (s : String) : Decidable (IsPlain s) :=
  decidable_of_iff (isVoid s = false ∧ s ≠ ".." ∧ '/' ∉ s.toList)
    ⟨fun ⟨h, h', h''⟩ => ⟨h, h', h''⟩, fun ⟨h, h', h''⟩ => ⟨h, h', h''⟩⟩

private theorem segments_ne_nil (path : String) : segments path ≠ [] := by
  simp [segments, List.splitOn_ne_nil]

private theorem segments_slash (s t : String) : segments (s ++ "/" ++ t) = segments s ++ segments t := by
  have hslash : "/".toList = ['/'] := rfl
  simp only [segments, String.toList_append, hslash, List.append_assoc, List.singleton_append,
    List.splitOn_append_cons_self, List.map_append]

private theorem segments_intercalate {names : List String} (hne : names ≠ [])
    (h : ∀ s ∈ names, '/' ∉ s.toList) : segments ("/".intercalate names) = names := by
  have hslash : ∀ cs ∈ names.map String.toList, '/' ∉ cs := by simpa using h
  have hsplit := List.splitOn_intercalate '/' hslash (by simpa using hne)
  rw [segments, String.toList_intercalate]
  simpa using congrArg (List.map String.ofList) hsplit

/-- Between a path and the names joined to it stands one slash, which may be the last
character of the path. -/
theorem exists_segments_join (root : String) {names : List String} (hne : names ≠ [])
    (h : ∀ s ∈ names, '/' ∉ s.toList) :
    ∃ base, base ≠ [] ∧ segments (join root names) = base ++ names ∧
      (segments root = base ∨ segments root = base ++ [""]) := by
  have hnames := segments_intercalate hne h
  unfold join
  split
  next hlast =>
    obtain ⟨cs, hcs⟩ := List.getLast?_eq_some_iff.1 hlast
    have hroot : root = String.ofList cs ++ "/" := String.toList_inj.1 (by simp [hcs])
    refine ⟨segments (String.ofList cs), segments_ne_nil _, ?_, .inr ?_⟩
    · rw [hroot, segments_slash, hnames]
    · rw [hroot, ← String.append_empty (s := String.ofList cs ++ "/"), segments_slash]
      rfl
  · exact ⟨segments root, segments_ne_nil _, by rw [segments_slash, hnames], .inl rfl⟩

theorem join_ne_empty {root : String} (hroot : root ≠ "") (names : List String) :
    join root names ≠ "" := by
  unfold join
  split <;> simp [hroot]

theorem isAbsolute_join {root : String} (hroot : root ≠ "") (names : List String) :
    isAbsolute (join root names) = isAbsolute root := by
  have hne : root.toList ≠ [] := by simpa using hroot
  obtain ⟨c, cs, hcs⟩ := List.exists_cons_of_ne_nil hne
  unfold isAbsolute join
  split <;> simp [hcs]

private theorem filter_of_isPlain {names : List String} (h : ∀ s ∈ names, IsPlain s) :
    names.filter (!isVoid ·) = names :=
  List.filter_eq_self.2 fun s hs => by simp [(h s hs).not_void]

theorem components_join {root : String} (hroot : root ≠ "") {names : List String} (hne : names ≠ [])
    (h : ∀ s ∈ names, IsPlain s) :
    components (join root names) = components root ++ names.map .name := by
  obtain ⟨base, hbase, hjoin, hsegments⟩ := exists_segments_join root hne fun s hs => (h s hs).no_slash
  have hnames : names.map Component.ofSegment = names.map .name :=
    List.map_congr_left fun s hs => if_neg (h s hs).ne_up
  have hhead : (base ++ names).head? = (segments root).head? := by
    obtain ⟨b, bs, rfl⟩ := List.exists_cons_of_ne_nil hbase
    rcases hsegments with e | e <;> simp [e]
  have hfilter : (segments root).filter (!isVoid ·) = base.filter (!isVoid ·) := by
    rcases hsegments with e | e
    · rw [e]
    · simp [e, isVoid]
  rw [components, components, isAbsolute_join hroot, hjoin, hhead, hfilter, List.filter_append,
    filter_of_isPlain h, List.map_append, hnames, List.append_assoc]

theorem before_join {root : String} (hroot : root ≠ "") {names names' : List String} (hne : names ≠ [])
    (hne' : names' ≠ []) (h : ∀ s ∈ names, IsPlain s) (h' : ∀ s ∈ names', IsPlain s)
    (hlex : List.Lex Component.Before (names.map .name) (names'.map .name)) :
    Before (join root names) (join root names') := by
  rw [Before, components_join hroot hne h, components_join hroot hne' h']
  exact List.Lex.append_left _ hlex _

end Path

namespace Entry

theorem get?_append (e : Entry) (names names' : List String) :
    e.get? (names ++ names') = (e.get? names).bind (·.get? names') := by
  induction names generalizing e with
  | nil => rfl
  | cons s names ih =>
    cases e with
    | file bytes => rfl
    | directory es =>
      cases hs : Entries.lookup s es with
      | none => simp [get?, hs]
      | some e => simp [get?, hs, ih]

end Entry

namespace Disk

variable {d : Disk}

theorem follow?_append (d : Disk) (place segments segments' : List String) :
    d.follow? place (segments ++ segments') =
      (d.follow? place segments).bind (d.follow? · segments') := by
  induction segments generalizing place with
  | nil => rfl
  | cons s segments ih =>
    simp only [List.cons_append, follow?, ih]
    split
    · split
      · rfl
      · split <;> rfl
    · rfl

theorem get?_follow? {names : List String} (h : ∀ s ∈ names, Path.IsPlain s) (place : List String) :
    (d.follow? place names).bind d.root.get? = (d.root.get? place).bind (·.get? names) := by
  induction names generalizing place with
  | nil => simp [follow?, Entry.get?]
  | cons s names ih =>
    obtain ⟨hs, hnames⟩ := List.forall_mem_cons.1 h
    have hstep := ih hnames (place ++ [s])
    rw [Entry.get?_append] at hstep
    cases hplace : d.root.get? place with
    | none => simp [follow?, isDirectoryAt, hplace]
    | some e =>
      cases e with
      | file bytes => simp [follow?, isDirectoryAt, hplace, Entry.isDirectory, Entry.get?]
      | directory es =>
        simp [follow?, isDirectoryAt, hplace, Entry.isDirectory, hs.not_void, hs.ne_up, hstep,
          Entry.get?]

theorem ne_empty_of_find?_eq_some {path : String} {e : Entry} (h : d.find? path = some e) :
    path ≠ "" := by
  rintro rfl
  simp [find?, place?] at h

/-- A slash at the end of the path of a directory changes nothing. -/
theorem follow?_of_follow?_void {origin base place : List String}
    (h : d.follow? origin (base ++ [""]) = some place) : d.follow? origin base = some place := by
  rw [follow?_append] at h
  obtain ⟨place', hplace', h⟩ := Option.bind_eq_some_iff.1 h
  have hvoid : Path.isVoid "" = true := rfl
  simp only [follow?, hvoid, if_true] at h
  split at h
  · rw [hplace', h]
  · cases h

theorem find?_join {root : String} {es : List (String × Entry)}
    (hroot : d.find? root = some (.directory es)) {names : List String} (hne : names ≠ [])
    (h : ∀ s ∈ names, Path.IsPlain s) :
    d.find? (Path.join root names) = (Entry.directory es).get? names := by
  have hempty := ne_empty_of_find?_eq_some hroot
  obtain ⟨base, -, hjoin, hsegments⟩ := Path.exists_segments_join root hne fun s hs => (h s hs).no_slash
  obtain ⟨place, hplace, hget⟩ := Option.bind_eq_some_iff.1 hroot
  rw [place?, if_neg hempty] at hplace
  have hbase : d.follow? (d.start root) base = some place := by
    rcases hsegments with e | e
    · rwa [e] at hplace
    · exact follow?_of_follow?_void (e ▸ hplace)
  have hstart : d.start (Path.join root names) = d.start root := by
    rw [start, start, Path.isAbsolute_join hempty]
  rw [find?, place?, if_neg (Path.join_ne_empty hempty names), hstart, hjoin, follow?_append, hbase,
    Option.bind_some, get?_follow? h, hget, Option.bind_some]

end Disk

end AnnotatedApi
