import Stubwise.Command
import Stubwise.Proofs.Bundle.Packing
import Stubwise.Proofs.Bundle.Paths
import Stubwise.Proofs.Stub.Memory

namespace Stubwise

open List StubSource Text

variable {directories : List String} {directory path : String}

namespace StubTree

open Bundle (Lists)

variable {storage : Storage} {sources : List (String × String)} {stub? : String → Option String}
  {path base : String}

theorem file?_ofSources (lists : Lists sources stub?) (path : String) :
    (ofSources storage sources).file? path = (stub? path).map (StubFile.ofSource path) := by
  have same : (fun file : StubFile => file.path == path) ∘
      (fun entry : String × String => StubFile.ofSource entry.1 entry.2) = fun entry => entry.1 == path := rfl
  have found : sources.find? (·.1 == path) = (stub? path).map (path, ·) := by
    match stands : stub? path with
    | some text =>
      have some_hit : (sources.find? (·.1 == path)).isSome = true :=
        find?_isSome.mpr ⟨(path, text), (lists ..).mpr stands, beq_self_eq_true path⟩
      obtain ⟨⟨other, content⟩, hit⟩ := Option.isSome_iff_exists.mp some_hit
      have named := find?_some hit
      cases eq_of_beq named
      have listed := (lists ..).mp (mem_of_find?_eq_some hit)
      rw [stands] at listed
      cases listed
      exact hit
    | none =>
      refine find?_eq_none.mpr fun entry member hit => ?_
      have listed := (lists entry.1 entry.2).mp member
      rw [eq_of_beq hit, stands] at listed
      cases listed
  rw [file?, ofSources, find?_map, same, found, Option.map_map]
  rfl

theorem any_ofSources (lists : Lists sources stub?) (test : String → Bool) :
    ((ofSources storage sources).files.any fun file => test file.path) = true ↔
      ∃ path, (stub? path).isSome = true ∧ test path = true := by
  rw [ofSources, any_map, any_eq_true]
  constructor
  · rintro ⟨⟨path, text⟩, member, passes⟩
    exact ⟨path, by rw [(lists ..).mp member]; rfl, passes⟩
  · rintro ⟨path, stands, passes⟩
    obtain ⟨text, stands⟩ := Option.isSome_iff_exists.mp stands
    exact ⟨(path, text), (lists ..).mpr stands, passes⟩

theorem hasPrefix_of_liesBelow {storage : Storage} (below : liesBelow storage directory path) :
    hasPrefix path (directory ++ "/") = true := by
  unfold liesBelow at below
  split at below
  · have chars := congrArg String.toList (eq_of_beq below)
    rw [String.toList_ofList] at chars
    exact isPrefixOf_iff_prefix.mpr (chars ▸ take_prefix ..)
  · exact below

theorem liesBelow_bundle (ascii : ∀ c ∈ directory.toList, c.toNat < 128)
    (below : liesBelow .disk directory path) : liesBelow .bundle directory path = true := by
  have size : (directory ++ "/").utf8ByteSize = (directory ++ "/").toList.length := by
    rw [← utf8ByteSize_ofList_of_ascii, String.ofList_toList]
    rw [String.toList_append]
    exact forall_mem_append.mpr ⟨ascii, forall_mem_singleton.mpr (by decide)⟩
  have start := prefix_iff_eq_take.mp (List.isPrefixOf_iff_prefix.mp below)
  refine beq_iff_eq.mpr ?_
  rw [size, ← start, String.ofList_toList]

/-- A tree of stubs in which a bundle finds what a directory has: no directory has the name of a stub,
and one whose name is not ASCII has a stub of its own. -/
structure Regular (stub? : String → Option String) : Prop where
  directories : ∀ path directory, (stub? path).isSome → liesBelow .disk directory path = true →
    hasSuffix directory stubExtension = false
  ascii : ∀ path directory, (stub? path).isSome → liesBelow .disk directory path = true →
    (∀ c ∈ directory.toList, c.toNat < 128) ∨ (stub? (directory ++ stubExtension)).isSome ∨
      (stub? (Path.join directory (packageFile ++ stubExtension))).isSome

def stubReading (stub? : String → Option String) (path : String) : Reading :=
  match stub? path with
  | some text => .file (.ofSource path text)
  | none => .missing

theorem read_disk (lists : Lists sources stub?)
    (stubs : ∀ path, (stub? path).isSome → hasSuffix path stubExtension = true)
    (regular : Regular stub?) (one : Text.OneDot path) (valid : isPath path) :
    (ofSources .disk sources).read path = stubReading stub? path := by
  have stub : hasSuffix path stubExtension = true := by
    obtain ⟨stem, chars, -⟩ := one
    exact isSuffixOf_iff_suffix.mpr ⟨stem, chars.symm⟩
  have noDirectory : (ofSources .disk sources).isDirectory path = false := by
    rw [isDirectory, Bool.eq_false_iff]
    intro directory
    rw [Bool.and_eq_true] at directory
    obtain ⟨other, stands, below⟩ := (any_ofSources lists _).mp directory.2
    rw [regular.directories other path stands below] at stub
    cases stub
  have noFile : ((ofSources .disk sources).files.any fun file =>
      hasPrefix path (file.path ++ "/")) = false := by
    rw [Bool.eq_false_iff]
    intro inside
    obtain ⟨other, stands, below⟩ :=
      (any_ofSources lists fun other => hasPrefix path (other ++ "/")).mp inside
    rw [one.not_below (stubs other stands)] at below
    cases below
  have folder : (ofSources .disk sources).isFile = false := rfl
  rw [read, valid, folder, file?_ofSources lists, noDirectory, noFile, stubReading]
  cases stub? path <;> simp

theorem read_bundle (lists : Lists sources stub?) (valid : isPath path) :
    (ofSources .bundle sources).read path = stubReading stub? path := by
  have folder : (ofSources .bundle sources).isFile = false := rfl
  have storage : (ofSources .bundle sources).storage = .bundle := rfl
  rw [read, valid, folder, file?_ofSources lists, stubReading, storage]
  cases stub? path <;> simp [refuseDirectory]

/-- The same answer from a bundle and from a directory. Only a path that cannot name a file is refused
in other words. -/
inductive SameAnswer {α : Type} : Except Stop α → Except Stop α → Prop
  | same (answer : Except Stop α) : SameAnswer answer answer
  | refused {path : String} (malformed : isPath path = false) :
      SameAnswer (.error (unreadable path s!"read {path}: invalid argument"))
        (.error (unreadable path s!"readfile {path}: invalid argument"))

theorem SameAnswer.bind {α β : Type} {one other : Except Stop α} {next rest : α → Except Stop β}
    (first : SameAnswer one other) (later : ∀ value, SameAnswer (next value) (rest value)) :
    SameAnswer (one >>= next) (other >>= rest) := by
  cases first with
  | same =>
    cases one with
    | error => exact .same _
    | ok value => exact later value
  | refused malformed => exact .refused malformed

section

variable {packed merged : List (String × String)}

theorem isDirectory_same (packs : Lists packed stub?) (lists : Lists merged stub?)
    (regular : Regular stub?) (noModule : stub? (base ++ stubExtension) = none)
    (noPackage : stub? (Path.join base (packageFile ++ stubExtension)) = none) :
    (ofSources .bundle packed).isDirectory base = (ofSources .disk merged).isDirectory base := by
  have below : ((ofSources .bundle packed).files.any fun file =>
      liesBelow .bundle base file.path) =
        (ofSources .disk merged).files.any fun file => liesBelow .disk base file.path := by
    rw [Bool.eq_iff_iff, any_ofSources packs, any_ofSources lists]
    refine exists_congr fun path => and_congr_right fun stands => ?_
    refine ⟨hasPrefix_of_liesBelow, fun below => liesBelow_bundle ?_ below⟩
    rcases regular.ascii path base stands below with ascii | own | own
    · exact ascii
    · simp [noModule] at own
    · simp [noPackage] at own
  rw [isDirectory, isDirectory, file?_ofSources packs, file?_ofSources lists]
  exact congrArg _ below

theorem module?_same (packs : Lists packed stub?) (lists : Lists merged stub?)
    (stubs : ∀ path, (stub? path).isSome → hasSuffix path stubExtension = true)
    (regular : Regular stub?) (name : String) :
    SameAnswer ((ofSources .bundle packed).module? name) ((ofSources .disk merged).module? name) := by
  have refusal {path : String} (malformed : isPath path = false) (sources : List (String × String))
      (storage : Storage) :
      (ofSources storage sources).read path = refuseShape storage path := by
    rw [read, malformed]
    rfl
  unfold module?
  have dotless := dot_not_mem_base name
  generalize "/".intercalate (split '.' name) = base at dotless ⊢
  have moduleDot : Text.OneDot (base ++ stubExtension) := ⟨base.toList, by simp, dotless⟩
  have packageDot := Path.join_oneDot dotless
  cases valid : isPath (base ++ stubExtension) with
  | false =>
    simp only [refusal valid]
    exact .refused valid
  | true =>
    simp only [read_bundle packs valid, read_disk lists stubs regular moduleDot valid, stubReading]
    cases noModule : stub? (base ++ stubExtension) with
    | some => exact .same _
    | none =>
      cases valid : isPath (Path.join base (packageFile ++ stubExtension)) with
      | false =>
        simp only [refusal valid]
        exact .refused valid
      | true =>
        simp only [read_bundle packs valid, read_disk lists stubs regular packageDot valid, stubReading]
        cases noPackage : stub? (Path.join base (packageFile ++ stubExtension)) with
        | some => exact .same _
        | none =>
          dsimp only
          rw [isDirectory_same packs lists regular noModule noPackage]
          exact .same _

end

section

variable {find other : String → Except Stop (Option StubModule)}

theorem longestModuleBy_same (same : ∀ name, SameAnswer (find name) (other name))
    (rest segments : List String) :
    SameAnswer (longestModuleBy find rest segments) (longestModuleBy other rest segments) := by
  induction segments generalizing rest with
  | nil => exact .same _
  | cons last _ ih =>
    refine (same _).bind fun found => ?_
    match found with
    | some found => exact .same _
    | none => exact ih (last :: rest)

theorem resolveBy_same (same : ∀ name, SameAnswer (find name) (other name)) (steps : Nat)
    (qualName : String) : SameAnswer (resolveBy find steps qualName) (resolveBy other steps qualName) := by
  induction steps generalizing qualName with
  | zero => exact .same _
  | succ _ ih =>
    refine (longestModuleBy_same same _ _).bind fun found => ?_
    match found with
    | none => exact .same _
    | some (_, []) => exact .same _
    | some (found, first :: rest) =>
      dsimp only
      match found.members.get? first with
      | none => exact .same _
      | some decl =>
        dsimp only
        match descend decl rest with
        | .found decl => exact .same _
        | .through target => exact ih _
        | .nowhere => exact .same _

end

end StubTree

namespace Bundle

open Command.Context (stubTree bundleTree)
open Disk (access)

theorem firstStub?_stub {disk : Disk} (stands : (disk.firstStub? directories path).isSome) :
    hasSuffix path stubExtension = true := by
  obtain ⟨text, stands⟩ := Option.isSome_iff_exists.mp stands
  obtain ⟨directory, -, found⟩ := exists_of_findSome?_eq_some stands
  exact (Disk.stubAt?_eq_some.mp found).2.1

/-- A directory with the stubs of some directories and nothing else. The first directory that has a
path wins. -/
structure Merges (disk : Disk) (directories : List String) (merged : Disk) (target : String) :
    Prop where
  directory : merged.kind target = .ok .directory
  only : ∀ path ∈ merged.below target, hasSuffix path stubExtension = true
  stubs : ∀ path, merged.stubAt? target path = disk.firstStub? directories path

theorem stubTree_run {disk merged : Disk} {target : String} (merges : Merges disk directories merged target) :
    ∃ sources, Lists sources (disk.firstStub? directories) ∧
      (stubTree access target).run merged = (.ofSources .disk sources, merged) := by
  have others : (merged.below target).partition (hasSuffix · stubExtension) = (merged.below target, []) := by
    rw [partition_eq_filter_filter, filter_eq_self.mpr merges.only,
      filter_eq_nil_iff.mpr fun path member => by simp [merges.only path member]]
  have all : newStubs merged [] target = (merged.below target).filterMap fun path =>
      (merged.read (Path.join target path)).toOption.map (path, ·) := by
    rw [newStubs, filter_eq_self.mpr fun path member => by simp [merges.only path member]]
  refine ⟨newStubs merged [] target, fun path text => ?_, ?_⟩
  · rw [← merges.stubs]
    exact lists_nil.add merged target path text
  · rw [stubTree, bind_run (Disk.access_kind ..), merges.directory]
    rw [bind_run (Disk.access_below ..), others]
    rw [bind_run (Disk.readEach_run ..), map_nil, append_nil, all]
    rfl

theorem bundleTree_run {before after : Disk} {file : String} {sources : List (String × String)}
    (written : before.write file (encode sources) = .ok after) :
    (bundleTree access file).run.run after = (.ok (.ofSources .bundle sources), after) := by
  have loaded : (ExceptT.lift (load access file) : Command.Work (StateM Disk) _).run.run after =
      (.ok (.ok sources), after) := by
    rw [ExceptT.run_lift, StateT.run_map, load_run written]
    rfl
  rw [bundleTree, ExceptT.run_bind, bind_run loaded]
  rfl

/-- A bundle that was packed from directories can be opened, and it gives every name the answer that
the merged directories give, whatever was asked before. -/
theorem bundle_answers_as_merged {disk after merged : Disk} {file target : String}
    {directories : List String} {count : Nat}
    (packed : (pack access file directories).run disk = (.ok count, after))
    (kept : isTransient file = false) (merges : Merges disk directories merged target)
    (regular : StubTree.Regular (disk.firstStub? directories)) :
    ∃ bundle, (bundleTree access file).run.run after = (.ok bundle, after) ∧
      ∀ one other : StubSource, one.tree = bundle → one.Faithful →
        other.tree = ((stubTree access target).run merged).1 → other.Faithful →
          ∀ steps name, StubTree.SameAnswer ((resolve steps name).run.run one).1
            ((resolve steps name).run.run other).1 := by
  obtain ⟨sources, before, packs, written⟩ := pack_run packed kept
  obtain ⟨listed, lists, read⟩ := stubTree_run merges
  refine ⟨.ofSources .bundle sources, bundleTree_run written, ?_⟩
  intro one other oneTree oneFaithful otherTree otherFaithful steps name
  rw [read] at otherTree
  rw [(resolve_answers steps name one oneTree oneFaithful).1,
    (resolve_answers steps name other otherTree otherFaithful).1]
  exact StubTree.resolveBy_same
    (StubTree.module?_same packs lists (fun _ => firstStub?_stub) regular) steps name

/-- Two directories and what they are merged into. One of the packages is a directory alone, and the
name of the other is not ASCII. -/
def sampleDisk : Disk where
  files := [("/a/ns/m.pyi", "x: int\n"), ("/b/ns/m.pyi", "x: str\n"), ("/b/é/__init__.pyi", ""),
    ("/m/ns/m.pyi", "x: int\n"), ("/m/é/__init__.pyi", "")]
  directories := ["/", "/a", "/a/ns", "/b", "/b/ns", "/b/é", "/m", "/m/ns", "/m/é"]

theorem sampleDisk_below :
    sampleDisk.below "a" = ["ns/m.pyi"] ∧ sampleDisk.below "b" = ["ns/m.pyi", "é/__init__.pyi"] ∧
      sampleDisk.below "m" = ["ns/m.pyi", "é/__init__.pyi"] := by
  have a : sampleDisk.locate "a" = .ok "/a" := by decide +kernel
  have b : sampleDisk.locate "b" = .ok "/b" := by decide +kernel
  have m : sampleDisk.locate "m" = .ok "/m" := by decide +kernel
  exact ⟨Disk.below_of_sorted a (by decide +kernel) (by decide),
    Disk.below_of_sorted b (by decide +kernel) (by decide),
    Disk.below_of_sorted m (by decide +kernel) (by decide)⟩

theorem sampleDisk_stubs (path : String) :
    sampleDisk.stubAt? "m" path = sampleDisk.firstStub? ["a", "b"] path ∧
      ((sampleDisk.firstStub? ["a", "b"] path).isSome → path = "ns/m.pyi" ∨ path = "é/__init__.pyi") := by
  obtain ⟨a, b, m⟩ := sampleDisk_below
  simp only [Disk.firstStub?, Disk.stubAt?, findSome?_cons, findSome?_nil, a, b, m]
  by_cases inModule : path = "ns/m.pyi"
  · subst inModule
    exact ⟨by decide +kernel, fun _ => .inl rfl⟩
  · by_cases inPackage : path = "é/__init__.pyi"
    · subst inPackage
      exact ⟨by decide +kernel, fun _ => .inr rfl⟩
    · simp [inModule, inPackage]

theorem sampleDisk_directory (stands : (sampleDisk.firstStub? ["a", "b"] path).isSome)
    (below : StubTree.liesBelow .disk directory path) :
    directory = "ns" ∨ directory = "é" := by
  have within : ∀ path ∈ ["ns/m.pyi", "é/__init__.pyi"], ∀ count < path.toList.length,
      path.toList[count]? = some '/' →
        String.ofList (path.toList.take count) ∈ ["ns", "é"] := by decide +kernel
  have member : path ∈ ["ns/m.pyi", "é/__init__.pyi"] := by
    simpa using (sampleDisk_stubs path).2 stands
  obtain ⟨rest, chars⟩ := isPrefixOf_iff_prefix.mp below
  have start := within path member directory.toList.length
  rw [← chars, String.toList_append, append_assoc, take_left, String.ofList_toList] at start
  simpa using start (by simp) (by simp)

theorem sampleDisk_regular : StubTree.Regular (sampleDisk.firstStub? ["a", "b"]) where
  directories path directory stands below := by
    rcases sampleDisk_directory stands below with rfl | rfl <;> decide
  ascii path directory stands below := by
    rcases sampleDisk_directory stands below with rfl | rfl
    · exact .inl (by simp)
    · refine .inr (.inr ?_)
      rw [← (sampleDisk_stubs _).1, Disk.stubAt?, sampleDisk_below.2.2]
      decide +kernel

theorem bundle_answers_as_merged_sample :
    ∃ count after, (pack access "out.db" ["a", "b"]).run sampleDisk = (.ok count, after) ∧
      isTransient "out.db" = false ∧ Merges sampleDisk ["a", "b"] sampleDisk "m" ∧
      StubTree.Regular (sampleDisk.firstStub? ["a", "b"]) ∧
      ∃ bundle, (bundleTree access "out.db").run.run after = (.ok bundle, after) ∧
        ∀ one other : StubSource, one.tree = bundle → one.Faithful →
          other.tree = ((stubTree access "m").run sampleDisk).1 → other.Faithful →
            ∀ steps name, StubTree.SameAnswer ((resolve steps name).run.run one).1
              ((resolve steps name).run.run other).1 := by
  have merges : Merges sampleDisk ["a", "b"] sampleDisk "m" := by
    refine ⟨by decide +kernel, ?_, fun path => (sampleDisk_stubs path).1⟩
    rw [sampleDisk_below.2.2]
    decide
  have place : sampleDisk.locate "out.db" = .ok "/out.db" := by decide +kernel
  have all : ∀ directory ∈ ["a", "b"],
      directory.isEmpty = false ∧ sampleDisk.kind directory = .ok .directory := by decide +kernel
  have around : Files.ancestors (Path.dirName "out.db") = [] := by decide +kernel
  have made : (access.makeDirectories (Path.dirName "out.db")).run sampleDisk =
      (.ok (), sampleDisk) := by
    rfl
  obtain ⟨count, after, packed⟩ := pack_new all made place (by decide +kernel)
  exact ⟨count, after, packed, by decide, merges, sampleDisk_regular,
    bundle_answers_as_merged packed (by decide) merges sampleDisk_regular⟩

theorem module?_of_directory (storage : Storage) (source : String) :
    (StubTree.ofSources storage [("é/m.pyi", source)]).module? "é" =
      if StubTree.liesBelow storage "é" "é/m.pyi" then
        .ok (some { decl := { name := "é", isPackage := true } })
      else .ok none := by
  have base : "/".intercalate (Text.split '.' "é") = "é" := by decide +kernel
  have module : "é" ++ stubExtension = "é.pyi" := by decide +kernel
  have package : Path.join "é" (packageFile ++ stubExtension) = "é/__init__.pyi" := by decide +kernel
  have missing : ∀ path ∈ ["é.pyi", "é/__init__.pyi"],
      (StubTree.ofSources storage [("é/m.pyi", source)]).read path = .missing := by
    have valid : ∀ path ∈ ["é.pyi", "é/__init__.pyi"], StubTree.isPath path = true ∧
        ("é/m.pyi" == path) = false ∧ StubTree.liesBelow storage path "é/m.pyi" = false ∧
          hasPrefix path "é/m.pyi/" = false := by
      cases storage <;> decide +kernel
    intro path member
    obtain ⟨valid, other, directory, inside⟩ := valid path member
    simp [StubTree.read, StubTree.isDirectory, StubTree.file?, StubTree.ofSources,
      StubFile.ofSource, valid, other, directory, inside]
  have directory : (StubTree.ofSources storage [("é/m.pyi", source)]).isDirectory "é" =
      StubTree.liesBelow storage "é" "é/m.pyi" := by
    have valid : StubTree.isPath "é" = true := by decide +kernel
    simp [StubTree.isDirectory, StubTree.file?, StubTree.ofSources, StubFile.ofSource, valid]
  rw [StubTree.module?, base, module, package, missing _ mem_cons_self]
  dsimp only
  rw [missing _ (mem_cons_of_mem _ mem_cons_self), directory]

/-- A directory whose name is not ASCII is a package of its tree, but not of a bundle of the tree. -/
theorem bundle_misses_directory :
    decode? (encode [("é/m.pyi", "x: int\n")]) = some [("é/m.pyi", "x: int\n")] ∧
      (StubTree.ofSources .bundle [("é/m.pyi", "x: int\n")]).module? "é" = .ok none ∧
      (StubTree.ofSources .disk [("é/m.pyi", "x: int\n")]).module? "é" =
        .ok (some { decl := { name := "é", isPackage := true } }) := by
  refine ⟨decode?_encode _, ?_, ?_⟩ <;> rw [module?_of_directory]
  · rw [if_neg (by decide +kernel)]
  · rw [if_pos (by decide +kernel)]

end Bundle

end Stubwise
