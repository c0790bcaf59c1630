import Stubwise.Proofs.Bundle.Resolution

namespace Stubwise

open List Text StubTree ModuleName

variable {parts : List String} {path stem base name : String} {tree : StubTree} {file : StubFile}

namespace Text

/-- An extension belongs to the last part. -/
theorem split_stub (text : String) : ∃ outer last, split '/' text = outer ++ [last] ∧
    split '/' (text ++ stubExtension) = outer ++ [last ++ stubExtension] := by
  obtain ⟨outer, last, shape⟩ := (eq_nil_or_concat _).resolve_left (split_ne_nil '/' text)
  rw [concat_eq_append] at shape
  have plain : ∀ part ∈ outer ++ [last], '/' ∉ part.toList := fun part member =>
    not_mem_of_mem_split (shape ▸ member)
  have whole : text ++ stubExtension = "/".intercalate (outer ++ [last ++ stubExtension]) := by
    rw [← intercalate_split "/" '/' rfl text, shape]
    by_cases none : outer = []
    · simp [none]
    · simp [String.intercalate_append_of_ne_nil none, String.append_assoc]
  refine ⟨outer, last, shape, ?_⟩
  rw [whole, split_intercalate rfl (by simp)]
  rw [forall_mem_append] at plain ⊢
  exact ⟨plain.1, by simpa [stubExtension] using plain.2⟩

end Text

namespace Path

theorem isPath_stub (filled : ∀ part ∈ split '/' stem, part ≠ "") (dotless : '.' ∉ stem.toList) :
    isPath (stem ++ stubExtension) = true := by
  obtain ⟨outer, last, shape, parts⟩ := split_stub stem
  have extended (text : String) (short : text.length < 4) : last ++ stubExtension ≠ text := by
    rintro rfl
    rw [String.length_append] at short
    exact absurd short (Nat.not_lt.mpr (Nat.le_add_left 4 _))
  rw [isPath, parts, Bool.or_eq_true, all_append, Bool.and_eq_true, all_eq_true]
  refine .inr ⟨fun part member => ?_, ?_⟩
  · have inside : part ∈ split '/' stem := shape ▸ mem_append_left _ member
    have named := ne_dots_of_dotless (plain_of_mem_split dotless inside)
    simp [filled part inside, named]
  · simp [extended "" (by decide), extended "." (by decide), extended ".." (by decide)]

theorem slashed_dotted (dotless : '.' ∉ base.toList) :
    "/".intercalate (split '.' (".".intercalate (split '/' base))) = base := by
  have some : split '/' base ≠ [] := split_ne_nil '/' base
  rw [split_intercalate rfl some (fun _ member => plain_of_mem_split dotless member), intercalate_split "/" '/' rfl]

section

variable (valid : isPath path) (named : path ≠ ".")
include valid named

theorem parts_of_isPath : ∀ part ∈ split '/' path, part ≠ "" ∧ part ≠ "." ∧ part ≠ ".." := by
  simpa [isPath, named, and_assoc] using valid

theorem clean_of_isPath : clean path = { parts := split '/' path } := by
  have each := parts_of_isPath valid named
  have unrooted : hasPrefix path "/" = false := by
    rw [Bool.eq_false_iff]
    intro rooted
    obtain ⟨rest, same⟩ := isPrefixOf_iff_prefix.mp rooted
    have empty : "" ∈ split '/' path := by
      rw [split, ← same]
      simp [splitChars]
    exact (each "" empty).1 rfl
  have filled : (split '/' path).filter (· != "") = split '/' path :=
    filter_eq_self.mpr fun part member => bne_iff_ne.mpr (each part member).1
  rw [clean, unrooted, foldl_step false (fun part member => (each part member).2), filled, append_nil,
    reverse_reverse]

theorem cleanText_of_isPath : cleanText path = path := by
  rw [cleanText, clean_of_isPath valid named, text]
  simpa [split_ne_nil] using intercalate_split "/" '/' rfl path

theorem relative_of_isPath : relative? "." path = some path := by
  have start : clean "." = {} := by decide
  have other : (({} : Path) == { parts := split '/' path }) = false := by
    simpa using (split_ne_nil '/' path).symm
  rw [relative?, clean_of_isPath valid named, start]
  simpa [other, dropShared] using intercalate_split "/" '/' rfl path

end

end Path

namespace ModuleName

theorem stub_ne_dot (text : String) : text ++ stubExtension ≠ "." := by
  intro same
  have last := congrArg (·.toList.getLast?) same
  simp [stubExtension] at last

theorem dropExtension_stub (text : String) : dropExtension (text ++ stubExtension) = text := by
  have other : hasSuffix (text ++ stubExtension) ".py" = false := by
    rw [hasSuffix, Bool.eq_false_iff, Ne, isSuffixOf_iff_suffix]
    rintro ⟨start, same⟩
    have last := congrArg getLast? same
    simp [stubExtension] at last
  have own : hasSuffix (text ++ stubExtension) stubExtension = true :=
    isSuffixOf_iff_suffix.mpr ⟨text.toList, by simp⟩
  have found : extension? (text ++ stubExtension) = some stubExtension := by
    simp [extension?, sourceExtensions, find?, other, own]
  rw [dropExtension, found]
  simp [dropEnd, ← String.length_toList]

theorem dotted_stub (valid : isPath (stem ++ stubExtension)) :
    dotted "." (stem ++ stubExtension) = .ok (".".intercalate (dottedParts (stem ++ stubExtension))) := by
  have named := stub_ne_dot stem
  have staying : ".." ∉ split '/' (stem ++ stubExtension) := fun member =>
    (Path.parts_of_isPath valid named _ member).2.2 rfl
  have inside : (stem ++ stubExtension == ".." || hasPrefix (stem ++ stubExtension) "../") = false := by
    rw [Bool.or_eq_false_iff, beq_eq_false_iff_ne, Bool.eq_false_iff]
    refine ⟨fun same => staying (by rw [same]; decide), fun found => staying ?_⟩
    obtain ⟨rest, same⟩ := isPrefixOf_iff_prefix.mp found
    rw [split, ← same]
    simp [splitChars]
  rw [dotted, Path.relative_of_isPath valid named]
  simp only [inside, Bool.false_eq_true, if_false]

/-- The name has the parts of the path; of a package it has those of the directory. -/
theorem dottedParts_stub (stem : String) : dottedParts (stem ++ stubExtension) = split '/' stem ∨
    ∃ base, stem = base ++ "/" ++ packageFile ∧ dottedParts (stem ++ stubExtension) = split '/' base := by
  obtain ⟨outer, last, shape⟩ := (eq_nil_or_concat _).resolve_left (split_ne_nil '/' stem)
  rw [concat_eq_append] at shape
  rw [dottedParts, dropExtension_stub, shape]
  by_cases package : outer ≠ [] ∧ last = packageFile
  · obtain ⟨some, rfl⟩ := package
    have whole := intercalate_split "/" '/' rfl stem
    rw [shape, String.intercalate_append_of_ne_nil some (by simp), String.intercalate_singleton] at whole
    refine .inr ⟨"/".intercalate outer, whole.symm, ?_⟩
    rw [split_intercalate rfl some fun part member => not_mem_of_mem_split (shape ▸ mem_append_left _ member)]
    simp [length_pos_iff, some]
  · refine .inl (if_neg ?_)
    simpa [length_pos_iff] using package

end ModuleName

theorem StubFile.moduleNamed_name (file : StubFile) (name : String) (isPackage : Bool) :
    (file.moduleNamed name isPackage).decl.name = name := by
  unfold moduleNamed
  generalize (if isPackage then file.asPackage.get else file.asModule.get) = usual
  dsimp only
  split
  · rename_i same
    exact eq_of_beq same
  · rfl

namespace StubTree

/-- A directory of files in which no path has a dot but that of the extension of stubs. On a disk, no
file is below another. -/
structure Undotted (tree : StubTree) : Prop where
  folder : tree.isFile = false
  valid : ∀ file ∈ tree.files, isPath file.path
  dots : ∀ file ∈ tree.files, '.' ∉ file.path.toList ∨ OneDot file.path
  leaves : tree.storage = .disk → ∀ file ∈ tree.files, ∀ other ∈ tree.files,
    hasPrefix other.path (file.path ++ "/") = false

theorem resolve_module {found : StubModule} (here : tree.module? name = .ok (some found)) :
    tree.resolve name = .ok (.module found.decl) := by
  have whole := intercalate_split "." '.' rfl name
  have steps : maxAliasSteps = 9999 + 1 := rfl
  obtain ⟨last, outer, shape⟩ : ∃ last outer, (split '.' name).reverse = last :: outer :=
    exists_cons_of_ne_nil (by simp [split_ne_nil])
  rw [← reverse_reverse (split '.' name), shape] at whole
  rw [resolve, steps, resolveBy, shape, longestModuleBy, whole, here]
  rfl

namespace Undotted

variable (undotted : tree.Undotted) (listed : file ∈ tree.files)
include undotted listed

theorem read_of_mem : ∃ found, tree.read file.path = .file found := by
  have known : (tree.file? file.path).isSome = true := find?_isSome.mpr ⟨file, listed, beq_self_eq_true _⟩
  obtain ⟨found, known⟩ := Option.isSome_iff_exists.mp known
  exact ⟨found, by simp [read, undotted.valid file listed, undotted.folder, known]⟩

/-- A stub beside a package can be read, or there is none. -/
theorem read_beside_package (dotless : '.' ∉ base.toList) (valid : isPath (base ++ stubExtension))
    (package : base.toList <+: file.path.toList) :
    (∃ found, tree.read (base ++ stubExtension) = .file found) ∨
      tree.read (base ++ stubExtension) = .missing := by
  have one : OneDot (base ++ stubExtension) := ⟨base.toList, by simp, dotless⟩
  have stub : hasSuffix (base ++ stubExtension) stubExtension = true :=
    isSuffixOf_iff_suffix.mpr ⟨base.toList, by simp⟩
  have noDirectory : tree.isDirectory (base ++ stubExtension) = false := by
    rw [isDirectory, Bool.eq_false_iff, Ne, Bool.and_eq_true, any_eq_true]
    rintro ⟨-, other, member, below⟩
    have start := hasPrefix_of_liesBelow below
    rcases undotted.dots other member with plain | stem
    · exact plain ((List.isPrefixOf_iff_prefix.mp start).subset (by simp [stubExtension]))
    · rw [stem.not_below stub] at start
      cases start
  have noFile : (tree.storage == .disk &&
      tree.files.any fun file => hasPrefix (base ++ stubExtension) (file.path ++ "/")) = false := by
    rw [Bool.eq_false_iff, Ne, Bool.and_eq_true, any_eq_true]
    rintro ⟨disk, other, member, start⟩
    have apart := undotted.leaves (eq_of_beq disk) other member file listed
    rcases undotted.dots other member with plain | ⟨stem, chars, -⟩
    · -- without a dot in it, the path of the other file ends before the extension
      have inside : '.' ∉ (other.path ++ "/").toList := by simpa using plain
      obtain ⟨rest, same⟩ := isPrefixOf_iff_prefix.mp start
      have within : (other.path ++ "/").toList <+: base.toList := by
        rcases append_eq_append_iff.mp (same.trans String.toList_append) with
          ⟨more, whole, -⟩ | ⟨_ | ⟨c, more⟩, whole, tail⟩
        · exact ⟨more, whole.symm⟩
        · exact ⟨[], by simpa using whole⟩
        · rw [whole] at inside
          simp_all [stubExtension]
      exact Bool.false_ne_true (apart.symm.trans (List.isPrefixOf_iff_prefix.mpr (within.trans package)))
    · rw [one.not_below (isSuffixOf_iff_suffix.mpr ⟨stem, chars.symm⟩)] at start
      cases start
  cases known : tree.file? (base ++ stubExtension) with
  | some found => exact .inl ⟨found, by simp [read, valid, undotted.folder, known]⟩
  | none => exact .inr (by simp [read, valid, undotted.folder, known, noDirectory, noFile])

theorem module?_of_mem (dotless : '.' ∉ stem.toList) (path : file.path = stem ++ stubExtension) :
    ∃ found, tree.module? (".".intercalate (dottedParts file.path)) = .ok (some found) ∧
      found.decl.name = ".".intercalate (dottedParts file.path) := by
  obtain ⟨own, read⟩ := undotted.read_of_mem listed
  have valid := undotted.valid file listed
  rw [path] at read valid ⊢
  unfold module?
  rcases dottedParts_stub stem with same | ⟨base, rfl, same⟩
  · rw [same, Path.slashed_dotted dotless]
    simp only [read]
    exact ⟨_, rfl, own.moduleNamed_name ..⟩
  · have plain : '.' ∉ base.toList := fun inside => dotless (by simp [inside])
    have named := stub_ne_dot (base ++ "/" ++ packageFile)
    rw [String.append_assoc] at read valid path named
    have filled : ∀ part ∈ split '/' base, part ≠ "" := by
      have parts := Path.parts_of_isPath valid named
      rw [split_last "/" '/' rfl (by decide)] at parts
      exact fun part member => (parts part (mem_append_left _ member)).1
    have some : base.isEmpty = false := by
      rw [Bool.eq_false_iff, Ne, String.isEmpty_iff]
      rintro rfl
      exact filled "" (by decide) rfl
    have joined : Path.join base (packageFile ++ stubExtension) =
        base ++ "/" ++ (packageFile ++ stubExtension) := by
      rw [Path.join, some, if_neg (by decide), if_neg (by decide), if_neg (by decide),
        Path.cleanText_of_isPath valid named]
    rw [same, Path.slashed_dotted plain]
    rcases undotted.read_beside_package listed plain (Path.isPath_stub filled plain)
        ⟨_, by rw [path, String.append_assoc, String.toList_append]⟩ with ⟨found, there⟩ | missing
    · simp only [there]
      exact ⟨_, rfl, found.moduleNamed_name ..⟩
    · simp only [missing, joined, read]
      exact ⟨_, rfl, own.moduleNamed_name ..⟩

end Undotted

end StubTree

/-- A name whose parts can be parts of a path is the name of the stub and of the package at its path.
In a tree without other dots, the name that the path of a stub gives leads to a module of that name. -/
theorem module_names_match_paths :
    (∀ name : String, (∀ part ∈ split '.' name, part ≠ "" ∧ '/' ∉ part.toList) →
      (¬(1 < (split '.' name).length ∧ (split '.' name).getLast? = some packageFile) →
        dotted "." ("/".intercalate (split '.' name) ++ stubExtension) = .ok name) ∧
      dotted "."
        ("/".intercalate (split '.' name) ++ "/" ++ packageFile ++ stubExtension) = .ok name) ∧
    ∀ tree : StubTree, tree.Undotted → ∀ file ∈ tree.files, hasSuffix file.path stubExtension →
      ∃ name decl, dotted "." file.path = .ok name ∧
        tree.resolve name = .ok (.module decl) ∧ decl.name = name := by
  constructor
  · intro name each
    have whole := intercalate_split "." '.' rfl name
    have parts : split '/' ("/".intercalate (split '.' name)) = split '.' name :=
      split_intercalate rfl (split_ne_nil '.' name) fun part member => (each part member).2
    have dotless := dot_not_mem_base name
    constructor
    · intro other
      rw [dotted_stub (Path.isPath_stub (fun part member => ?_) dotless)]
      · rw [dottedParts, dropExtension_stub, parts, if_neg, whole]
        simpa using other
      · exact (each part (parts ▸ member)).1
    · have package : split '/' ("/".intercalate (split '.' name) ++ "/" ++ packageFile) =
          split '.' name ++ [packageFile] := by
        rw [split_last "/" '/' rfl (by decide), parts]
      rw [dotted_stub (Path.isPath_stub ?_ ?_)]
      · rw [dottedParts, dropExtension_stub, package, if_pos, dropLast_concat, whole]
        simpa [length_pos_iff] using split_ne_nil '.' name
      · rw [package, forall_mem_append]
        exact ⟨fun part member => (each part member).1, by decide⟩
      · simp only [String.toList_append, mem_append, dotless, false_or]
        decide
  · intro tree undotted file listed stub
    rcases undotted.dots file listed with plain | ⟨stem, chars, dotless⟩
    · exact absurd ((isSuffixOf_iff_suffix.mp stub).subset (by decide)) plain
    · have path : file.path = String.ofList stem ++ stubExtension := by
        rw [← String.toList_inj, chars]
        simp
      have valid := undotted.valid file listed
      obtain ⟨found, here, named⟩ := undotted.module?_of_mem listed (by simpa using dotless) path
      rw [path] at valid here named ⊢
      exact ⟨_, found.decl, dotted_stub valid, StubTree.resolve_module here, named⟩

theorem module_names_match_paths_in_package :
    let tree : StubTree := .ofSources .disk [("a/__init__.pyi", ""), ("a/b.pyi", "")]
    tree.Undotted ∧ ∃ name decl, dotted "." "a/b.pyi" = .ok name ∧
      tree.resolve name = .ok (.module decl) ∧ decl.name = name := by
  intro tree
  have undotted : tree.Undotted := by
    refine ⟨rfl, ?_, ?_, fun _ => ?_⟩ <;>
      simp only [tree, ofSources, StubFile.ofSource, map_cons, map_nil, forall_mem_cons]
    · decide
    · exact ⟨.inr ⟨"a/__init__".toList, by decide, by decide⟩,
        .inr ⟨"a/b".toList, by decide, by decide⟩, forall_mem_nil _⟩
    · decide
  exact ⟨undotted, module_names_match_paths.2 tree undotted _ (mem_cons_of_mem _ mem_cons_self) (by decide)⟩

end Stubwise
