import AnnotatedApi.Disk.Scan
import AnnotatedApi.Proofs.Disk.Listing
import AnnotatedApi.Proofs.Text.Parts

/-! Which files a scan finds. Main statement: a scan of a directory gives the visible files below it
that have one of the extensions and are in no skipped directory, each once and in the order of paths,
however the directories list their entries. -/
namespace AnnotatedApi

namespace Path

/-- The extension of a name: what follows its last dot, unless nothing comes before that dot. -/
def HasExtension (name ext : String) : Prop :=
  ∃ stem, name = stem ++ "." ++ ext ∧ stem ≠ "" ∧ '.' ∉ ext.toList

private theorem nameExtension?_dot (stem : String) {ext : String} (h : '.' ∉ ext.toList) :
    nameExtension? (stem ++ "." ++ ext) = if stem = "" then none else some ext := by
  have hreverse : (stem ++ "." ++ ext).toList.reverse =
      ext.toList.reverse ++ '.' :: stem.toList.reverse := by simp
  have hext : '.' ∉ ext.toList.reverse := by simpa using h
  have htake := Text.upTo_append_cons hext stem.toList.reverse
  have hdrop : (ext.toList.reverse ++ '.' :: stem.toList.reverse).dropWhile (· ≠ '.') =
      '.' :: stem.toList.reverse := by
    rw [List.dropWhile_append_of_pos (Text.forall_ne_of_not_mem hext)]
    simp
  rw [Text.upTo] at htake
  simp only [nameExtension?, hreverse, hdrop, htake]
  by_cases hstem : stem = ""
  · simp [hstem]
  · obtain ⟨c, cs, hcs⟩ :=
      List.exists_cons_of_ne_nil (show stem.toList.reverse ≠ [] by simpa using hstem)
    simp [hstem, hcs]

theorem nameExtension?_eq_some_iff {name ext : String} :
    nameExtension? name = some ext ↔ HasExtension name ext := by
  constructor
  · intro h
    by_cases hdot : '.' ∈ name.toList.reverse
    · obtain ⟨l, rest, hsplit, hl⟩ := List.eq_append_cons_of_mem hdot
      have hname : name = String.ofList rest.reverse ++ "." ++ String.ofList l.reverse :=
        String.toList_inj.1 (by simpa using congrArg List.reverse hsplit)
      have hlast : '.' ∉ (String.ofList l.reverse).toList := by simpa using hl
      rw [hname, nameExtension?_dot _ hlast] at h
      split at h
      · cases h
      next hstem =>
        cases h
        exact ⟨_, hname, hstem, hlast⟩
    · have hdrop : name.toList.reverse.dropWhile (· ≠ '.') = [] :=
        List.dropWhile_eq_nil_iff.2 (Text.forall_ne_of_not_mem hdot)
      simp only [nameExtension?, hdrop] at h
      cases h
  · rintro ⟨stem, rfl, hstem, hext⟩
    rw [nameExtension?_dot stem hext, if_neg hstem]

end Path

namespace Scan

def Strips (given ext : String) : Prop :=
  ext.toList.head? ≠ some '.' ∧ ∃ n, given.toList = List.replicate n '.' ++ ext.toList

theorem normalExtension_eq_iff {given ext : String} :
    normalExtension given = ext ↔ Strips given ext := by
  constructor
  · rintro rfl
    refine ⟨?_, (given.toList.takeWhile (· = '.')).length, ?_⟩
    · intro hhead
      have h := List.head?_dropWhile_not (fun c => decide (c = '.')) given.toList
      rw [normalExtension, String.toList_ofList] at hhead
      simp [hhead] at h
    · have hdots : ∀ c ∈ given.toList.takeWhile (· = '.'), c = '.' := fun c hc => by
        simpa using List.mem_takeWhile_imp hc
      rw [← List.eq_replicate_of_mem hdots, normalExtension, String.toList_ofList,
        List.takeWhile_append_dropWhile]
  · rintro ⟨hhead, n, hgiven⟩
    have hdots : ∀ c ∈ List.replicate n '.', decide (c = '.') = true := by simp
    rw [normalExtension, hgiven, List.dropWhile_append_of_pos hdots]
    cases hext : ext.toList with
    | nil => exact String.toList_inj.1 (by simp [hext])
    | cons c cs =>
      have hc : c ≠ '.' := fun e => hhead (by simp [hext, e])
      exact String.toList_inj.1 (by simp [hext, hc])

variable {extensions names names' : List String} {name : String} {es : List (String × Entry)}

theorem hasExtension_iff :
    hasExtension (extensions.map normalExtension) name ↔
      ∃ given ∈ extensions, ∃ ext, Strips given ext ∧ Path.HasExtension name ext := by
  simp only [hasExtension, Option.any_eq_true, decide_eq_true_eq, List.mem_map,
    Path.nameExtension?_eq_some_iff, normalExtension_eq_iff]
  constructor
  · rintro ⟨ext, hname, given, hgiven, hext⟩
    exact ⟨given, hgiven, ext, hext, hname⟩
  · rintro ⟨given, hgiven, ext, hext, hname⟩
    exact ⟨ext, hname, given, hgiven, hext⟩

theorem mem_files_iff :
    names ∈ files extensions es ↔ ∃ p ∈ es, isHidden p.1 = false ∧
      names ∈ entryFiles extensions p.1 p.2 := by
  induction es with
  | nil => simp [files]
  | cons p rest ih =>
    cases hp : isHidden p.1 <;> simp [files, hp, ih]

/-- The names of a file that a scan is to find: nothing is hidden, no directory is skipped, and the
extension is one of those given. -/
structure Wanted (extensions names : List String) : Prop where
  visible : ∀ c ∈ names, c.toList.head? ≠ some '.'
  unskipped : ∀ c ∈ names.dropLast, c ≠ "node_modules" ∧ c ≠ "target"
  extension : ∃ last ∈ names.getLast?, ∃ given ∈ extensions, ∃ ext,
    Strips given ext ∧ Path.HasExtension last ext

theorem isHidden_eq_false_iff : isHidden name = false ↔ name.toList.head? ≠ some '.' := by
  simp [isHidden]

private theorem not_mem_skippedNames_iff :
    name ∉ skippedNames ↔ name ≠ "node_modules" ∧ name ≠ "target" := by
  simp [skippedNames]

theorem Wanted.ne_nil (h : Wanted extensions names) : names ≠ [] := by
  rintro rfl
  obtain ⟨last, hlast, -⟩ := h.extension
  cases hlast

theorem wanted_singleton_iff :
    Wanted extensions [name] ↔ isHidden name = false ∧
      hasExtension (extensions.map normalExtension) name := by
  rw [isHidden_eq_false_iff, hasExtension_iff]
  constructor
  · rintro ⟨visible, -, last, hlast, hext⟩
    cases hlast
    exact ⟨visible name (by simp), hext⟩
  · rintro ⟨visible, hext⟩
    exact ⟨by simpa using visible, by simp, name, rfl, hext⟩

theorem wanted_cons_iff (hne : names ≠ []) :
    Wanted extensions (name :: names) ↔
      isHidden name = false ∧ name ∉ skippedNames ∧ Wanted extensions names := by
  rw [isHidden_eq_false_iff, not_mem_skippedNames_iff]
  have hlast : (name :: names).getLast? = names.getLast? := by
    obtain ⟨t, rest, rfl⟩ := List.exists_cons_of_ne_nil hne
    rfl
  constructor
  · rintro ⟨visible, unskipped, extension⟩
    rw [List.dropLast_cons_of_ne_nil hne, List.forall_mem_cons] at unskipped
    rw [List.forall_mem_cons] at visible
    exact ⟨visible.1, unskipped.1, visible.2, unskipped.2, hlast ▸ extension⟩
  · rintro ⟨hvisible, hunskipped, visible, unskipped, extension⟩
    refine ⟨List.forall_mem_cons.2 ⟨hvisible, visible⟩, ?_, hlast ▸ extension⟩
    rw [List.dropLast_cons_of_ne_nil hne]
    exact List.forall_mem_cons.2 ⟨hunskipped, unskipped⟩

theorem head?_of_mem_entryFiles {e : Entry} (h : names ∈ entryFiles extensions name e) :
    names.head? = some name := by
  cases e with
  | file bytes =>
    simp only [entryFiles, List.mem_ite_nil_right, List.mem_singleton] at h
    rw [h.2]
    rfl
  | directory es =>
    simp only [entryFiles, List.mem_ite_nil_left, List.mem_map] at h
    obtain ⟨-, below, -, rfl⟩ := h
    rfl

/-- One step down: the first name leads to an entry, and the others are a file in it. -/
theorem cons_mem_files_iff :
    name :: names ∈ files extensions es ↔
      ∃ e, (name, e) ∈ es ∧ isHidden name = false ∧ name :: names ∈ entryFiles extensions name e := by
  rw [mem_files_iff]
  constructor
  · rintro ⟨⟨first, e⟩, hmem, hvisible, hfile⟩
    cases head?_of_mem_entryFiles hfile
    exact ⟨e, hmem, hvisible, hfile⟩
  · rintro ⟨e, hmem, hvisible, hfile⟩
    exact ⟨(name, e), hmem, hvisible, hfile⟩

/-- All steps: a scan finds what the names lead to if it is a file and the names are wanted. -/
theorem mem_files_iff_wanted (h : (Entry.directory es).WellFormed) :
    names ∈ files (extensions.map normalExtension) es ↔
      (∃ bytes, (Entry.directory es).get? names = some (.file bytes)) ∧ Wanted extensions names := by
  induction names generalizing es with
  | nil =>
    constructor
    · intro hfile
      obtain ⟨p, -, -, hfile⟩ := mem_files_iff.1 hfile
      cases head?_of_mem_entryFiles hfile
    · rintro ⟨⟨bytes, hget⟩, -⟩
      cases hget
  | cons name names ih =>
    simp only [cons_mem_files_iff, h.mem_iff, Entry.get?]
    cases hlookup : Entries.lookup name es with
    | none => simp
    | some e =>
      simp only [Option.some.injEq, exists_eq_left', Option.bind_some]
      cases e with
      | file bytes =>
        cases names with
        | nil => simp [entryFiles, Entry.get?, wanted_singleton_iff]
        | cons next names => simp [entryFiles, Entry.get?]
      | directory es' =>
        have hinner := (h.of_mem (h.mem_iff.2 hlookup)).2
        cases names with
        | nil => simp [entryFiles, Entry.get?, ih hinner]
        | cons next names =>
          rw [wanted_cons_iff (List.cons_ne_nil next names)]
          simp [entryFiles, ih hinner, and_left_comm]

theorem nodup_files_of_forall (hkeys : (Entries.keys es).Nodup)
    (h : ∀ p ∈ es, ∀ name, (entryFiles extensions name p.2).Nodup) : (files extensions es).Nodup := by
  induction es with
  | nil => simp [files]
  | cons p rest ih =>
    obtain ⟨hp, hrest⟩ := List.nodup_cons.1 hkeys
    rw [files, List.nodup_append]
    refine ⟨?_, ih hrest fun q hq => h q (List.mem_cons_of_mem p hq), ?_⟩
    · split
      · exact List.nodup_nil
      · exact h p (List.mem_cons_self ..) p.1
    · -- The names that come first differ.
      rintro names hfirst names' hother rfl
      obtain ⟨q, hq, -, hother⟩ := mem_files_iff.1 hother
      simp only [List.mem_ite_nil_left] at hfirst
      have hname : p.1 = q.1 :=
        Option.some.inj ((head?_of_mem_entryFiles hfirst.2).symm.trans (head?_of_mem_entryFiles hother))
      exact hp (List.mem_map.2 ⟨q, hq, hname.symm⟩)

theorem nodup_entryFiles (extensions : List String) {e : Entry} (h : e.WellFormed) (name : String) :
    (entryFiles extensions name e).Nodup := by
  induction h generalizing name with
  | file bytes =>
    rw [entryFiles]
    split <;> simp
  | directory nodup _ _ ih =>
    rw [entryFiles]
    split
    · exact List.nodup_nil
    · exact List.Pairwise.map _ (fun _ _ hne e => hne (List.tail_eq_of_cons_eq e))
        (nodup_files_of_forall nodup ih)

theorem nodup_files (extensions : List String) (h : (Entry.directory es).WellFormed) :
    (files extensions es).Nodup := by
  cases h with
  | directory nodup _ inner =>
    exact nodup_files_of_forall nodup fun p hp => nodup_entryFiles extensions (inner p hp)

theorem atMost_cons_iff {name' : String} :
    atMost (name :: names) (name' :: names') ↔ name < name' ∨ name = name' ∧ atMost names names' := by
  simp [atMost]

theorem lex_of_atMost (h : atMost names names') (hne : names ≠ names') :
    List.Lex Path.Component.Before (names.map .name) (names'.map .name) := by
  induction names generalizing names' with
  | nil =>
    cases names' with
    | nil => exact absurd rfl hne
    | cons name' names' => exact .nil
  | cons name names ih =>
    cases names' with
    | nil => cases h
    | cons name' names' =>
      rcases atMost_cons_iff.1 h with hlt | ⟨rfl, hrest⟩
      · exact .rel (.name (Text.bytes_lt_of_lt hlt))
      · exact .cons (ih hrest fun e => hne (e ▸ rfl))

private theorem eq_of_atMost_of_atMost (h : atMost names names') (h' : atMost names' names) :
    names = names' := by
  induction names generalizing names' with
  | nil =>
    cases names' with
    | nil => rfl
    | cons name' names' => cases h'
  | cons name names ih =>
    cases names' with
    | nil => cases h
    | cons name' names' =>
      rcases atMost_cons_iff.1 h with hlt | ⟨rfl, hrest⟩
      · rcases atMost_cons_iff.1 h' with hlt' | ⟨rfl, -⟩
        · exact absurd (String.lt_trans hlt hlt') (String.lt_irrefl name)
        · exact absurd hlt (String.lt_irrefl _)
      · rcases atMost_cons_iff.1 h' with hlt' | ⟨-, hrest'⟩
        · exact absurd hlt' (String.lt_irrefl _)
        · rw [ih hrest hrest']

theorem sorted_eq_of_perm {files ordered : List (List String)} (hperm : files.Perm ordered)
    (hordered : ordered.Pairwise fun a b => atMost a b) : sorted files = ordered :=
  ((List.mergeSort_perm files atMost).trans hperm).eq_of_pairwise (fun _ _ _ _ => eq_of_atMost_of_atMost)
    (pairwise_sorted files) hordered

/-- The sorted list depends only on what is listed. -/
theorem sorted_eq_of_mem_iff {files files' : List (List String)} (hnodup : files.Nodup)
    (hnodup' : files'.Nodup) (h : ∀ f, f ∈ files ↔ f ∈ files') : sorted files = sorted files' := by
  have hperm := (List.perm_ext_iff_of_nodup hnodup hnodup').2 h
  exact sorted_eq_of_perm (hperm.trans (List.mergeSort_perm files' atMost).symm) (pairwise_sorted files')

/-- A scan of `root` is to find the file that the names lead to. -/
structure Eligible (d : Disk) (root : String) (extensions names : List String) : Prop
    extends Wanted extensions names where
  plain : ∀ c ∈ names, Path.IsPlain c
  file : d.isFile (Path.join root names)

variable {d : Disk} {root : String}

theorem mem_files_iff_eligible (hes : (Entry.directory es).WellFormed)
    (hroot : d.find? root = some (.directory es)) :
    names ∈ files (extensions.map normalExtension) es ↔ Eligible d root extensions names := by
  rw [mem_files_iff_wanted hes]
  constructor
  · rintro ⟨⟨bytes, hget⟩, hwanted⟩
    have hplain := (hes.of_get? hget).1
    refine ⟨hwanted, hplain, ?_⟩
    rw [Disk.isFile, Disk.find?_join hroot hwanted.ne_nil hplain, hget]
  · rintro ⟨hwanted, hplain, hfile⟩
    refine ⟨?_, hwanted⟩
    rw [Disk.isFile, Disk.find?_join hroot hwanted.ne_nil hplain] at hfile
    split at hfile
    next bytes hget => exact ⟨bytes, hget⟩
    · cases hfile

theorem pairwise_before (hes : (Entry.directory es).WellFormed)
    (hroot : d.find? root = some (.directory es)) (extensions : List String) :
    ((sorted (files (extensions.map normalExtension) es)).map (Path.join root)).Pairwise
      Path.Before := by
  have hnodup : (sorted (files (extensions.map normalExtension) es)).Nodup :=
    (List.mergeSort_perm _ atMost).nodup_iff.2 (nodup_files _ hes)
  rw [List.pairwise_map]
  apply ((pairwise_sorted _).and hnodup).imp_of_mem
  intro names names' hmem hmem' hless
  have h := (mem_files_iff_eligible hes hroot).1 (mem_sorted.1 hmem)
  have h' := (mem_files_iff_eligible hes hroot).1 (mem_sorted.1 hmem')
  exact Path.before_join (Disk.ne_empty_of_find?_eq_some hroot) h.ne_nil h'.ne_nil h.plain h'.plain
    (lex_of_atMost hless.1 hless.2)

theorem sorted_files_of_relisted {es' : List (String × Entry)} (hes : (Entry.directory es).WellFormed)
    (h : Entry.Relisted (.directory es) (.directory es')) :
    sorted (files (extensions.map normalExtension) es') =
      sorted (files (extensions.map normalExtension) es) := by
  have hes' := h.wellFormed hes
  apply sorted_eq_of_mem_iff (nodup_files _ hes') (nodup_files _ hes)
  intro names
  have hget := h.get? hes names
  rw [mem_files_iff_wanted hes', mem_files_iff_wanted hes]
  generalize (Entry.directory es).get? names = found at hget
  generalize (Entry.directory es').get? names = found' at hget
  cases hget with
  | none => rfl
  | some hsame => cases hsame <;> simp

end Scan

namespace Disk

variable {d : Disk}

theorem exists_find?_of_isDirectory (hd : d.root.WellFormed) {path : String} (h : d.isDirectory path) :
    ∃ es, d.find? path = some (.directory es) ∧ (Entry.directory es).WellFormed := by
  obtain ⟨e, he, hdirectory⟩ := (Option.any_eq_true _ _).1 h
  cases e with
  | file bytes => cases hdirectory
  | directory es =>
    obtain ⟨place, -, hget⟩ := Option.bind_eq_some_iff.1 he
    exact ⟨es, he, (hd.of_get? hget).2⟩

theorem scan_of_find?_eq_some {root : String} {es : List (String × Entry)}
    (h : d.find? root = some (.directory es)) (extensions : List String) :
    d.scan extensions root =
      .ok ((Scan.sorted (Scan.files (extensions.map Scan.normalExtension) es)).map
        (Path.join root)) := by
  rw [scan, h]

/-- A scan of a directory of any name gives the eligible files, each once and in the order of paths. How
the directories list their entries does not matter. -/
theorem scan_finds_eligible (hd : d.root.WellFormed) {root : String} (hroot : d.isDirectory root)
    (extensions : List String) :
    (∃ paths, d.scan extensions root = .ok paths ∧ paths.Nodup ∧ paths.Pairwise Path.Before ∧
      ∀ path, path ∈ paths ↔ ∃ names, path = Path.join root names ∧
        Scan.Eligible d root extensions names) ∧
    ∀ d' : Disk, d'.here = d.here → Entry.Relisted d.root d'.root →
      d'.scan extensions root = d.scan extensions root := by
  obtain ⟨es, hentry, hes⟩ := exists_find?_of_isDirectory hd hroot
  have hscan := scan_of_find?_eq_some hentry extensions
  constructor
  · have hbefore := Scan.pairwise_before hes hentry extensions
    refine ⟨_, hscan, hbefore.imp Path.Before.ne, hbefore, fun path => ?_⟩
    simp only [List.mem_map, Scan.mem_sorted, Scan.mem_files_iff_eligible hes hentry]
    constructor
    · rintro ⟨names, hnames, rfl⟩
      exact ⟨names, rfl, hnames⟩
    · rintro ⟨names, rfl, hnames⟩
      exact ⟨names, hnames, rfl⟩
  · intro d' hhere hrelisted
    have hentry' := find?_of_relisted hd hrelisted hhere root
    rw [hentry] at hentry'
    generalize hfound : d'.find? root = found at hentry'
    cases hentry' with
    | some hsame =>
      cases hsame with
      | directory keys inner =>
        rw [hscan, scan_of_find?_eq_some hfound,
          Scan.sorted_files_of_relisted hes (.directory keys inner)]

/-- A hidden file, a skipped directory, names without a given extension, and names whose paths are in
another order than their texts. -/
def sources : List (String × Entry) :=
  [("b.js", .file .empty), (".c.js", .file .empty), ("a-b.js", .file .empty),
    ("a", .directory [("b.js", .file .empty)]), ("node_modules", .directory [("d.js", .file .empty)]),
    ("e.", .file .empty), ("f.ts", .file .empty)]

/-- A disk with sources in a directory that a scan would skip if it came across it. -/
def shop (sources : List (String × Entry)) : Disk where
  root := .directory [("target", .directory sources)]

theorem wellFormed_sources : (Entry.directory sources).WellFormed := by
  have hinner : ∀ s, Path.IsPlain s → (Entry.directory [(s, .file .empty)]).WellFormed := fun s hs =>
    .directory (by simp [Entries.keys]) (by simpa [Entries.keys] using hs)
      (by simp [Entry.WellFormed.file])
  refine .directory (by decide) (by decide) ?_
  simp [sources, Entry.WellFormed.file, hinner "b.js" (by decide), hinner "d.js" (by decide)]

theorem wellFormed_shop : (shop sources).root.WellFormed :=
  .directory (by decide) (by decide) (by simpa using wellFormed_sources)

theorem relisted_shop : Entry.Relisted (shop sources).root (shop sources.reverse).root := by
  refine .directory (.refl _) fun hmem hmem' => ?_
  cases List.mem_singleton.1 hmem
  cases List.mem_singleton.1 hmem'
  exact .of_perm wellFormed_sources (List.reverse_perm sources).symm

theorem scan_finds_eligible_shop :
    (shop sources).root.WellFormed ∧ (shop sources).isDirectory "./target" ∧
      Entry.Relisted (shop sources).root (shop sources.reverse).root ∧
      ∃ paths, paths = ["./target/a/b.js", "./target/a-b.js", "./target/b.js", "./target/e."] ∧
        (shop sources).scan ["..js", "."] "./target" = .ok paths ∧
        (shop sources.reverse).scan ["..js", "."] "./target" = .ok paths ∧ paths.Pairwise Path.Before ∧
        ∀ path, path ∈ paths ↔ ∃ names, path = Path.join "./target" names ∧
          Scan.Eligible (shop sources) "./target" ["..js", "."] names := by
  have hdirectory : (shop sources).isDirectory "./target" := by decide
  obtain ⟨⟨paths, hscan, -, hbefore, hmem⟩, hrelisted⟩ :=
    scan_finds_eligible wellFormed_shop hdirectory ["..js", "."]
  refine ⟨wellFormed_shop, hdirectory, relisted_shop, paths, ?_, hscan, ?_, hbefore, hmem⟩
  · have hentry : find? (shop sources) "./target" = some (.directory sources) := rfl
    have hsorted : Scan.sorted (Scan.files (["..js", "."].map Scan.normalExtension) sources) =
        [["a", "b.js"], ["a-b.js"], ["b.js"], ["e."]] := Scan.sorted_eq_of_perm (by decide) (by decide)
    rw [scan_of_find?_eq_some hentry, hsorted] at hscan
    exact (Except.ok.inj hscan).symm
  · rw [hrelisted (shop sources.reverse) rfl relisted_shop, hscan]

end Disk

end AnnotatedApi
