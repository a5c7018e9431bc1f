import AnnotatedApi.Disk.Basic

/-! Finding the annotated files below a directory. -/
namespace AnnotatedApi

namespace Scan

def defaultExtensions : List String := ["js", "jsx", "ts", "tsx", "mjs", "cjs"]

def skippedNames : List String := ["node_modules", "target"]

/-- An extension may be given with dots before it. -/
def normalExtension (s : String) : String := String.ofList (s.toList.dropWhile (· = '.'))

def isHidden (name : String) : Bool := name.toList.head? = some '.'

def hasExtension (extensions : List String) (name : String) : Bool :=
  (Path.nameExtension? name).any (· ∈ extensions)

mutual

def entryFiles (extensions : List String) (name : String) : Entry → List (List String)
  | .file _ => if hasExtension extensions name then [[name]] else []
  | .directory es => if name ∈ skippedNames then [] else (files extensions es).map (name :: ·)

/-- The files below a directory. What is hidden is left out, and so are the skipped directories. -/
def files (extensions : List String) : List (String × Entry) → List (List String)
  | [] => []
  | (name, e) :: rest =>
    (if isHidden name then [] else entryFiles extensions name e) ++ files extensions rest

end

def atMost : List String → List String → Bool
  | [], _ => true
  | _ :: _, [] => false
  | a :: as, b :: bs => a < b || a = b && atMost as bs

theorem atMost_total (a b : List String) : (atMost a b || atMost b a) = true := by
  induction a generalizing b with
  | nil => simp [atMost]
  | cons s as ih =>
    cases b with
    | nil => simp [atMost]
    | cons t bs =>
      by_cases hst : s < t
      · simp [atMost, hst]
      · by_cases he : s = t
        · subst he
          simpa [atMost] using ih bs
        · have := Std.lt_of_le_of_ne (String.not_lt.1 hst) (Ne.symm he)
          simp [atMost, this]

theorem atMost_trans (a b c : List String) (h : atMost a b) (h' : atMost b c) : atMost a c := by
  induction a generalizing b c with
  | nil => simp [atMost]
  | cons s as ih =>
    cases b with
    | nil => simp [atMost] at h
    | cons t bs =>
      cases c with
      | nil => simp [atMost] at h'
      | cons u cs =>
        simp only [atMost, Bool.or_eq_true, Bool.and_eq_true, decide_eq_true_eq] at h h' ⊢
        rcases h with h | ⟨rfl, h⟩ <;> rcases h' with h' | ⟨rfl, h'⟩
        · exact .inl (String.lt_trans h h')
        · exact .inl h
        · exact .inl h'
        · exact .inr ⟨rfl, ih bs cs h h'⟩

def sorted (files : List (List String)) : List (List String) := files.mergeSort atMost

@[simp] theorem mem_sorted {f : List String} {files : List (List String)} :
    f ∈ sorted files ↔ f ∈ files := List.mem_mergeSort

theorem pairwise_sorted (files : List (List String)) :
    (sorted files).Pairwise fun a b => atMost a b :=
  List.pairwise_mergeSort atMost_trans atMost_total files

end Scan

/-- The paths of the files below a directory that have one of the extensions, in order. The directory
itself may have any name. -/
def Disk.scan (d : Disk) (extensions : List String) (root : String) : Except Failure (List String) :=
  match d.find? root with
  | none => .error (.inaccessible root)
  | some (.file _) => .error (.notDirectory root)
  | some (.directory es) =>
    let files := Scan.files (extensions.map Scan.normalExtension) es
    .ok ((Scan.sorted files).map (Path.join root))

end AnnotatedApi
