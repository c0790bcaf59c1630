import Mathlib.Data.List.TakeWhile
import Stubwise.Proofs.Stub.Naming

/-!
What a member of a stub module is called elsewhere, and what its name means in the module: both lead
to the same declaration unless the import that counts inside is not the one that counts outside.
-/

namespace Stubwise

open List StubTree

namespace Text

variable {c : Char} {separator text last : String} {parts : List String}

theorem splitChars_eq_splitOn (c : Char) (chars : List Char) : splitChars c chars = chars.splitOn c := by
  induction chars with
  | nil => rfl
  | cons _ rest ih =>
    obtain ⟨part, parts, same⟩ := exists_cons_of_ne_nil (splitOn_ne_nil c rest)
    rw [splitOn_cons_eq_if_modifyHead, splitChars, ih, same]
    rfl

theorem split_ne_nil (c : Char) (text : String) : split c text ≠ [] := by
  simp [split, splitChars_eq_splitOn, splitOn_ne_nil]

theorem split_last (separator : String) (c : Char) (single : separator.toList = [c])
    (plain : c ∉ last.toList) (text : String) : split c (text ++ separator ++ last) = split c text ++ [last] := by
  simp [split, splitChars_eq_splitOn, single, splitOn_append_cons_self, splitOn_eq_singleton plain]

theorem intercalate_split (separator : String) (c : Char) (single : separator.toList = [c])
    (text : String) : separator.intercalate (split c text) = text := by
  refine String.toList_inj.mp ?_
  rw [String.toList_intercalate, split, map_map, splitChars_eq_splitOn, single]
  simp [Function.comp_def]

theorem split_intercalate (single : separator.toList = [c]) (some : parts ≠ [])
    (plain : ∀ part ∈ parts, c ∉ part.toList) : split c (separator.intercalate parts) = parts := by
  rw [split, splitChars_eq_splitOn, String.toList_intercalate, single, splitOn_intercalate]
  · simp [Function.comp_def]
  · simpa using plain
  · simpa using some

end Text

namespace NameTable

variable {names : NameTable} {name : String}

theorem segments_of_plain {name : String} (plain : '.' ∉ name.toList) :
    name.toList.takeWhile (· != '.') = name.toList ∧ name.toList.dropWhile (· != '.') = [] := by
  have all : ∀ c ∈ name.toList, (c != '.') = true := fun c member =>
    bne_iff_ne.mpr fun same => plain (same ▸ member)
  exact ⟨takeWhile_eq_self_iff.mpr all, dropWhile_eq_nil_iff.mpr all⟩

theorem qualify_imported (plain : '.' ∉ name.toList) {target : String}
    (imported : names.imports.get? name = some target) : names.qualify name = target := by
  obtain ⟨head, tail⟩ := segments_of_plain plain
  simp [qualify, head, tail, imported]

theorem qualify_own (plain : '.' ∉ name.toList) (imported : names.imports.get? name = none)
    (own : names.own.contains name) : names.qualify name = names.module ++ "." ++ name := by
  obtain ⟨head, _⟩ := segments_of_plain plain
  simp only [qualify, head, String.ofList_toList, imported, own, Bool.true_or, if_true]

end NameTable

section Members

variable {tree : StubTree} {name last : String} {found : StubModule} {decl : Decl}

theorem longestModule_member (plain : '.' ∉ last.toList) (here : tree.module? name = .ok (some found))
    (noModule : tree.module? (name ++ "." ++ last) = .ok none) :
    StubTree.longestModuleBy tree.module? [] (Text.split '.' (name ++ "." ++ last)).reverse =
      .ok (some (found, [last])) := by
  have whole := Text.intercalate_split "." '.' rfl (name ++ "." ++ last)
  have outer := Text.intercalate_split "." '.' rfl name
  rw [Text.split_last "." '.' rfl plain] at whole ⊢
  obtain ⟨inner, before, shape⟩ : ∃ inner before, (Text.split '.' name).reverse = inner :: before :=
    exists_cons_of_ne_nil (by simp [Text.split_ne_nil])
  rw [← reverse_reverse (Text.split '.' name), shape] at whole outer
  rw [reverse_append, shape, reverse_singleton, singleton_append]
  simp only [longestModuleBy, reverse_cons (a := last), whole, noModule, outer, here]
  rfl

theorem resolve_member (plain : '.' ∉ last.toList) (here : tree.module? name = .ok (some found))
    (noModule : tree.module? (name ++ "." ++ last) = .ok none)
    (member : found.members.get? last = some decl) (others : List StubTree) :
    Stubs.resolve { trees := tree :: others } (name ++ "." ++ last) = .ok decl := by
  have resolved (steps : Nat) : resolveBy tree.module? (steps + 1) (name ++ "." ++ last) = .ok decl := by
    simp only [resolveBy, longestModule_member plain here noModule, bind, Except.bind, member]
    cases decl <;> rfl
  rw [Stubs.resolve, Stubs.resolveIn, show StubTree.maxAliasSteps = 9999 + 1 from rfl, resolved]

end Members

open StubModule (index)

theorem StubModule.index_name (name : String) (isPackage : Bool) (tree : Module) :
    (index name isPackage tree).decl.name = name :=
  rfl

theorem StubFile.moduleNamed_ofSource (path source name : String) (isPackage : Bool) :
    (ofSource path source).moduleNamed name isPackage =
      index name isPackage (parseModule path source).tree := by
  unfold moduleNamed ofSource
  cases isPackage <;>
    simp only [Bool.false_eq_true, if_false, if_true, Thunk.get, StubModule.index_name] <;> split
  case false.isTrue same => rw [beq_iff_eq.mp same]
  case true.isTrue same => rw [beq_iff_eq.mp same]
  all_goals rfl

theorem StubTree.module?_of_file {tree : StubTree} {path source name : String}
    (named : "/".intercalate (Text.split '.' name) ++ stubExtension = path)
    (read : tree.read path = .file (.ofSource path source)) :
    tree.module? name = .ok (some (index name false (parseModule path source).tree)) := by
  rw [module?, named, read, ← StubFile.moduleNamed_ofSource]

namespace StubModule

/-- The bindings of a name in a module, in order. -/
def bindingsOf (name : String) (isPackage : Bool) (file : Module) (member : String) :
    List Binding :=
  bindingsAll (packageOf name isPackage) member file.body

section

variable {name : String} {isPackage : Bool} {file : Module} {member : String}

theorem index_declared : Declared (nameTable name isPackage file) member
    (bindingsOf name isPackage file member) [] (index name isPackage file).members :=
  addDecls_declared _ _ member [] file.body

theorem nameTable_scanned : Scanned member (bindingsOf name isPackage file member)
    { module := name } (nameTable name isPackage file) :=
  scanAll_scanned _ member { module := name } file.body

theorem names_eq {key : String} {path : List String} {top user : Decl} {names : NameTable}
    (written : (index name isPackage file).members.get? key = some top)
    (inside : descend top path = .found user) (table : user.names? = some names) :
    names = nameTable name isPackage file := by
  have declared : Declared (nameTable name isPackage file) key _ [] _ := index_declared
  exact declared.uses (allUse_nil _) key top written path user inside names table

theorem qualify_unimported (plain : '.' ∉ member.toList) {decl : Decl}
    (declared : (index name isPackage file).members.get? member = some decl)
    (unimported : lastTarget? (bindingsOf name isPackage file member) = none) :
    (nameTable name isPackage file).qualify member = name ++ "." ++ member := by
  have scanned : Scanned member _ _ (nameTable name isPackage file) := nameTable_scanned
  have own : .own ∈ bindingsOf name isPackage file member := by
    -- something declares the name, and that is no import
    cases first : first? (bindingsOf name isPackage file member) with
    | none =>
      rw [index_declared.absent rfl first] at declared
      cases declared
    | some binding =>
      have listed := mem_of_find?_eq_some first
      cases kind : binding.target? with
      | none =>
        cases binding with
        | own => exact listed
        | _ => cases kind
      | some target =>
        have bound : target ∈ (bindingsOf name isPackage file member).filterMap (·.target?) :=
          mem_filterMap.mpr ⟨binding, listed, kind⟩
        rw [getLast?_eq_none_iff.mp unimported] at bound
        cases bound
  rw [NameTable.qualify_own plain, scanned.module]
  · rw [scanned.imports, unimported]
    rfl
  · rw [scanned.own, contains_iff_mem.mpr own, Bool.or_true]

/-- For a module of the first tree and a name that it declares: following aliases from what the name
means to anything written in the module, and following them from the qualified name, reach the same
declaration or none. This is so if no import binds the name, or if its first declaration is the import
that its last import repeats and no module has the qualified name. -/
theorem means_same_inside_and_outside {first : StubTree} (others : List StubTree)
    (read : first.module? name = .ok (some (index name isPackage file)))
    (plain : '.' ∉ member.toList) {decl : Decl}
    (declared : (index name isPackage file).members.get? member = some decl)
    {key : String} {path : List String} {top user : Decl} {names : NameTable}
    (written : (index name isPackage file).members.get? key = some top)
    (inside : descend top path = .found user) (table : user.names? = some names)
    (settled : lastTarget? (bindingsOf name isPackage file member) = none ∨
      ∃ target, lastTarget? (bindingsOf name isPackage file member) = some target ∧
        first? (bindingsOf name isPackage file member) = some (.imported target) ∧
        first.module? (name ++ "." ++ member) = .ok none)
    (found : Decl) :
    Reaches (Stubs.resolve { trees := first :: others }) (names.qualify member) found ↔
      Reaches (Stubs.resolve { trees := first :: others }) (name ++ "." ++ member) found := by
  rw [names_eq written inside table]
  rcases settled with unimported | ⟨target, last, imported, noModule⟩
  · rw [qualify_unimported plain declared unimported]
  · have inner : (nameTable name isPackage file).qualify member = target := by
      refine NameTable.qualify_imported plain ?_
      rw [nameTable_scanned.imports, last]
      rfl
    have outer := resolve_member plain read noModule (index_declared.imported target rfl imported) others
    rw [inner, reaches_of_alias outer]

end

def importingSources : List (String × String) :=
  [("m.pyi", "from p import X\nv: X\n"), ("p.pyi", "class X: ...\n")]

theorem means_same_inside_and_outside_imported :
    let tree := ofSources .memory importingSources
    let indexed := index "m" false (parseModule "m.pyi" "from p import X\nv: X\n").tree
    ∃ names, (indexed.members.get? "v").bind (·.names?) = some names ∧ ∀ found,
      (Reaches (Stubs.resolve { trees := [tree] }) (names.qualify "X") found ↔
        Reaches (Stubs.resolve { trees := [tree] }) "m.X" found) := by
  intro tree indexed
  have read : tree.module? "m" = .ok (some indexed) := by
    refine module?_of_file (by decide) ?_
    rfl
  obtain ⟨decl, declared⟩ : ∃ decl, indexed.members.get? "X" = some decl :=
    Option.isSome_iff_exists.mp (by decide +kernel)
  obtain ⟨names, named⟩ : ∃ names, (indexed.members.get? "v").bind (·.names?) = some names :=
    Option.isSome_iff_exists.mp (by decide +kernel)
  obtain ⟨user, written, table⟩ := Option.bind_eq_some_iff.mp named
  have inside : descend user [] = .found user := by cases user <;> rfl
  refine ⟨names, named, means_same_inside_and_outside [] read (by decide) declared written inside
    table (.inr ⟨"p.X", by decide +kernel, by decide +kernel, by with_unfolding_all rfl⟩)⟩

def branchingSources : List (String × String) :=
  [("m.pyi", "if a:\n    from p import X\nelse:\n    from q import X\nv: X\n"),
    ("p.pyi", "class X: ...\n"), ("q.pyi", "class X: ...\n")]

/-- Inside, the last import counts; from outside, the first does. -/
theorem later_import_means_another :
    let stubs : Stubs := { trees := [.ofSources .memory branchingSources] }
    let inside := (stubs.resolve "m.v").toOption.bind (·.names?)
    (inside.bind fun names => (stubs.follow (names.qualify "X")).toOption.map (·.qualName)) =
        some "q.X" ∧
      (stubs.follow "m.X").toOption.map (·.qualName) = some "p.X" := by
  decide +kernel

end StubModule

end Stubwise
