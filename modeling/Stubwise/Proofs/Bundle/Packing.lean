import Mathlib.Data.List.Basic
import Stubwise.Files.Memory
import Stubwise.Proofs.Run
import Stubwise.Stub.Bundle

namespace Stubwise.Bundle

open List

theorem takeNumber_digits {ending : Char} (other : ending.isDigit = false) {digits : List Char}
    (all : ∀ c ∈ digits, c.isDigit = true) (value : Nat) (rest : List Char) :
    takeNumber ending value (digits ++ ending :: rest) = some (Nat.ofDigitChars 10 digits value, rest) := by
  induction digits generalizing value with
  | nil => simp [takeNumber]
  | cons c _ ih =>
    have digit : c.isDigit = true := all c (by simp)
    have differs : (c == ending) = false := by
      rw [beq_eq_false_iff_ne]
      rintro rfl
      rw [digit] at other
      cases other
    rw [cons_append, takeNumber, if_neg (by simp [differs]), if_pos digit,
      ih fun c member => all c (by simp [member]), Nat.ofDigitChars_cons, Nat.mul_comm value]

theorem takeNumber_toString {ending : Char} (other : ending.isDigit = false) (value : Nat)
    (rest : List Char) :
    takeNumber ending 0 ((toString value).toList ++ ending :: rest) = some (value, rest) := by
  have all : ∀ c ∈ (toString value).toList, c.isDigit = true := by
    rw [Nat.toString_eq_ofList_toDigits, String.toList_ofList]
    exact fun c member => Nat.isDigit_of_mem_toDigits (by decide) (by decide) member
  rw [takeNumber_digits other all, Nat.toString_eq_ofList_toDigits, String.toList_ofList,
    Nat.ofDigitChars_ten_toDigits]

theorem toList_encodeEntry (path source : String) :
    (encodeEntry path source).toList = (toString path.length).toList ++ ' ' ::
      ((toString source.length).toList ++ '\n' :: (path.toList ++ source.toList)) := by
  have space : (toString " ").toList = [' '] := rfl
  have newline : (toString "\n").toList = ['\n'] := rfl
  simp [encodeEntry, space, newline]

theorem decodeEntries_entry (turns : Nat) (path source : String) (rest : List Char) :
    decodeEntries (turns + 1) ((encodeEntry path source).toList ++ rest) =
      (decodeEntries turns rest).map ((path, source) :: ·) := by
  rw [decodeEntries.eq_3 _ _ (by simp [toList_encodeEntry]), toList_encodeEntry, append_assoc,
    cons_append, takeNumber_toString (by decide), Option.bind_eq_bind, Option.bind_some]
  dsimp only
  rw [append_assoc, cons_append, takeNumber_toString (by decide), Option.bind_eq_bind, Option.bind_some]
  rw [append_assoc, ← String.length_toList, ← String.length_toList, drop_left,
    drop_left, take_left, take_left, String.ofList_toList, String.ofList_toList]
  cases decodeEntries turns rest <;> rfl

theorem decodeEntries_encoded {turns : Nat} (sources : List (String × String))
    (enough : sources.length ≤ turns) :
    decodeEntries turns (sources.flatMap fun entry => (encodeEntry entry.1 entry.2).toList) =
      some sources := by
  induction sources generalizing turns with
  | nil => cases turns <;> rfl
  | cons _ _ ih =>
    obtain ⟨turns, rfl⟩ := Nat.exists_eq_succ_of_ne_zero (Nat.ne_zero_of_lt enough)
    rw [flatMap_cons, decodeEntries_entry, ih (Nat.le_of_succ_le_succ enough), Option.map_some]

theorem toList_encode (sources : List (String × String)) :
    (encode sources).toList =
      heading.toList ++ sources.flatMap fun entry => (encodeEntry entry.1 entry.2).toList := by
  rw [encode, String.toList_append, String.toList_join, flatMap_map]

theorem length_le_flatMap_encodeEntry (sources : List (String × String)) :
    sources.length ≤ (sources.flatMap fun entry => (encodeEntry entry.1 entry.2).toList).length := by
  induction sources with
  | nil => exact Nat.le_refl 0
  | cons =>
    rw [flatMap_cons, length_append, toList_encodeEntry, length_append]
    simp only [length_cons]
    omega

theorem decode?_encode (sources : List (String × String)) : decode? (encode sources) = some sources := by
  have start : Text.hasPrefix (encode sources) heading = true := by
    rw [Text.hasPrefix, isPrefixOf_iff_prefix, toList_encode]
    exact prefix_append ..
  have enough : sources.length ≤ (encode sources).length := by
    rw [← String.length_toList, toList_encode, length_append]
    exact Nat.le_trans (length_le_flatMap_encodeEntry sources) (Nat.le_add_left ..)
  rw [decode?, if_pos start, toList_encode, ← String.length_toList (s := heading), drop_left,
    decodeEntries_encoded sources enough]

end Stubwise.Bundle

namespace Stubwise

open List Text Disk

variable {directories : List String} {count : Nat} {directory from_ goal place : String}

theorem bind_run {σ α β : Type} {run : StateM σ α} {before after : σ} {value : α}
    (ended : run.run before = (value, after)) (next : α → StateM σ β) :
    (run >>= next).run before = (next value).run after := by
  rw [StateT.run_bind, ended]
  rfl

namespace Disk

variable {disk after : Disk} {path text place : String}

/-- What a directory has at a path, if a stub is there. -/
def stubAt? (disk : Disk) (directory path : String) : Option String :=
  if path ∈ disk.below directory ∧ hasSuffix path stubExtension then
    (disk.read (Path.join directory path)).toOption
  else none

/-- What the first directory to have a stub at a path has there. -/
def firstStub? (disk : Disk) (directories : List String) (path : String) : Option String :=
  directories.findSome? (disk.stubAt? · path)

theorem kind?_set (text : String) (other : String) :
    { disk with files := disk.files.set place text }.kind? other =
      if place = other then some .file else disk.kind? other := by
  simp only [kind?, Table.contains, Table.get?_set, beq_iff_eq]
  split <;> rfl

section

variable (free : disk.kind? place ≠ some .directory)
include free

theorem enter_set {part next : String} (entered : disk.enter from_ part = .ok next) :
    { disk with files := disk.files.set place text }.enter from_ part = .ok next := by
  have differs : place ≠ from_ := by
    rintro rfl
    unfold enter at entered
    split at entered
    next => cases entered
    next => cases entered
    next here => exact free here
  unfold enter at entered ⊢
  rw [kind?_set, if_neg differs]
  exact entered

theorem foldlM_enter_set {parts : List String} (reached : parts.foldlM disk.enter from_ = .ok goal) :
    parts.foldlM { disk with files := disk.files.set place text }.enter from_ = .ok goal := by
  induction parts generalizing from_ with
  | nil => exact reached
  | cons part parts ih =>
    rw [foldlM_cons] at reached ⊢
    match entered : disk.enter from_ part with
    | .error fault =>
      rw [entered] at reached
      cases reached
    | .ok next =>
      rw [entered] at reached
      rw [enter_set free entered]
      exact ih reached

theorem locate_set (located : disk.locate path = .ok goal) :
    { disk with files := disk.files.set place text }.locate path = .ok goal := by
  unfold locate at located ⊢
  split at located
  next => cases located
  next filled =>
    rw [if_neg filled]
    split at located
    next => cases located
    next valid =>
      rw [if_neg valid]
      exact foldlM_enter_set free located

end

section

variable (written : disk.write path text = .ok after)
include written

theorem write_eq_ok :
    ∃ place, disk.locate path = .ok place ∧ disk.kind? place ≠ some .directory ∧
      after = { disk with files := disk.files.set place text } := by
  obtain ⟨place, located, written⟩ := Run.exists_of_bind written
  dsimp only at written
  split at written
  · cases written
  · rename_i free
    cases written
    exact ⟨place, located, by simpa using free, rfl⟩

theorem kind_write : after.kind path = .ok .file := by
  obtain ⟨place, located, free, rfl⟩ := write_eq_ok written
  rw [kind, locate_set free located]
  simp [bind, Except.bind, kind?_set]
  rfl

theorem read_write : after.read path = .ok text := by
  obtain ⟨place, located, free, rfl⟩ := write_eq_ok written
  rw [read, locate_set free located]
  simp [bind, Except.bind]
  rfl

end

theorem access_kind (path : String) (disk : Disk) :
    (access.kind path).run disk = (disk.kind path, disk) :=
  rfl

theorem access_read (path : String) (disk : Disk) :
    (access.read path).run disk = (disk.read path, disk) :=
  rfl

theorem access_below (path : String) (disk : Disk) :
    (access.below path).run disk = (disk.below path, disk) :=
  rfl

theorem change_ok {act : Disk → Except PathFault Disk} (done : act disk = .ok after) :
    (change act).run disk = (.ok (), after) := by
  have got : (get : StateM Disk Disk).run disk = (disk, disk) := rfl
  rw [change, bind_run got, done]
  rfl

theorem change_error {act : Disk → Except PathFault Disk} {fault : PathFault}
    (failed : act disk = .error fault) : (change act).run disk = (.error fault, disk) := by
  have got : (get : StateM Disk Disk).run disk = (disk, disk) := rfl
  rw [change, bind_run got, failed]
  rfl

theorem readEach_run (directory : String) (paths : List String) (disk : Disk) :
    (access.readEach directory paths).run disk = (paths.filterMap fun path =>
        (disk.read (Path.join directory path)).toOption.map (path, ·), disk) := by
  induction paths with
  | nil => rfl
  | cons path _ ih =>
    rw [Files.readEach, bind_run ih, bind_run (access_read ..), filterMap_cons]
    cases disk.read (Path.join directory path) <;> rfl

theorem below_of_sorted {names : List String} (located : disk.locate path = .ok directory)
    (listed : disk.files.keys.filterMap (below? directory) = names)
    (sorted : names.Pairwise fun a b => decide (a ≤ b) = true) : disk.below path = names := by
  rw [below, located]
  dsimp only
  rw [listed, sortNames, mergeSort_of_pairwise sorted]

theorem stubAt?_eq_some :
    disk.stubAt? directory path = some text ↔ path ∈ disk.below directory ∧ hasSuffix path stubExtension ∧
        (disk.read (Path.join directory path)).toOption = some text := by
  rw [stubAt?, ite_eq_iff]
  simp [and_assoc]

end Disk

namespace Bundle

open Disk (access)

variable {disk after : Disk} {file : String} {known sources : List (String × String)}
  {stub? : String → Option String}

/-- Whether a list has exactly the texts that the paths stand for. A path may stand in it twice. -/
def Lists (sources : List (String × String)) (stub? : String → Option String) : Prop :=
  ∀ path text, (path, text) ∈ sources ↔ stub? path = some text

theorem lists_nil : Lists [] fun _ => none := by
  simp [Lists]

theorem Lists.any_path (lists : Lists known stub?) (path : String) :
    (known.any (·.1 == path)) = (stub? path).isSome := by
  rw [Bool.eq_iff_iff, any_eq_true, Option.isSome_iff_exists]
  constructor
  · rintro ⟨⟨other, text⟩, member, same⟩
    cases eq_of_beq same
    exact ⟨text, (lists ..).mp member⟩
  · rintro ⟨text, here⟩
    exact ⟨(path, text), (lists ..).mpr here, beq_self_eq_true _⟩

/-- The stubs of a directory at paths that are not known yet. -/
def newStubs (disk : Disk) (known : List (String × String)) (directory : String) :
    List (String × String) :=
  ((disk.below directory).filter fun path =>
    hasSuffix path stubExtension && !known.any (·.1 == path)).filterMap fun path =>
      (disk.read (Path.join directory path)).toOption.map (path, ·)

theorem Lists.add (lists : Lists known stub?) (disk : Disk) (directory : String) :
    Lists (known ++ newStubs disk known directory)
      fun path => (stub? path).or (disk.stubAt? directory path) := by
  intro path text
  have added : (path, text) ∈ newStubs disk known directory ↔
      stub? path = none ∧ disk.stubAt? directory path = some text := by
    simp only [newStubs, mem_filterMap, mem_filter, lists.any_path,
      Option.map_eq_some_iff, Prod.mk.injEq, Bool.and_eq_true, Bool.not_eq_true',
      Option.isSome_eq_false_iff, Option.isNone_iff_eq_none, stubAt?_eq_some]
    constructor
    · rintro ⟨_, ⟨here, stub, new⟩, _, found, rfl, rfl⟩
      exact ⟨new, here, stub, found⟩
    · rintro ⟨new, here, stub, found⟩
      exact ⟨path, ⟨here, stub, new⟩, text, found, rfl, rfl⟩
  rw [mem_append, lists path text, added, Option.or_eq_some_iff]

theorem directoryFault_run (directory : String) (disk : Disk) :
    ∃ fault, (directoryFault access directory).run disk = (fault, disk) := by
  unfold directoryFault
  split
  next => exact ⟨_, rfl⟩
  next =>
    rw [bind_run (access_kind ..)]
    rcases disk.kind directory with fault | (_ | _) <;> exact ⟨_, rfl⟩

theorem collect_cons
    (clear : (directoryFault access directory).run disk = (none, disk)) (directories : List String) :
    (collect access known (directory :: directories)).run disk =
      (collect access (known ++ newStubs disk known directory) directories).run disk := by
  rw [collect, bind_run clear]
  rw [bind_run (access_below ..), bind_run (readEach_run ..), newStubs]

theorem collect_run (lists : Lists known stub?)
    (collected : (collect access known directories).run disk = (.ok sources, after)) :
    after = disk ∧ Lists sources fun path => (stub? path).or (disk.firstStub? directories path) := by
  induction directories generalizing known stub? with
  | nil =>
    cases collected
    exact ⟨rfl, by simpa [firstStub?] using lists⟩
  | cons directory _ ih =>
    obtain ⟨fault, checked⟩ := directoryFault_run directory disk
    match fault with
    | some reason =>
      rw [collect, bind_run checked] at collected
      cases collected
    | none =>
      rw [collect_cons checked] at collected
      obtain ⟨same, lists⟩ := ih (lists.add disk directory) collected
      refine ⟨same, fun path text => (lists path text).trans ?_⟩
      dsimp only
      rw [Option.or_assoc, firstStub?, firstStub?, findSome?_cons]
      cases disk.stubAt? directory path <;> rfl

theorem collect_of_directories
    (all : ∀ directory ∈ directories, directory.isEmpty = false ∧ disk.kind directory = .ok .directory)
    (known : List (String × String)) :
    ∃ sources, (collect access known directories).run disk = (.ok sources, disk) := by
  induction directories generalizing known with
  | nil => exact ⟨known, rfl⟩
  | cons directory _ ih =>
    obtain ⟨filled, kind⟩ := all directory mem_cons_self
    have clear : (directoryFault access directory).run disk = (none, disk) := by
      rw [directoryFault, if_neg (by simp [filled]), bind_run (access_kind ..), kind]
      rfl
    rw [collect_cons clear]
    exact ih (forall_mem_cons.mp all).2 _

theorem store_run (kept : isTransient file = false)
    (stored : (pack.store access file sources).run disk = (.ok count, after)) :
    disk.write file (encode (sources.mergeSort fun a b => decide (a.1 ≤ b.1))) = .ok after := by
  simp only [pack.store, kept, Bool.false_eq_true, if_false] at stored
  generalize encode _ = text at stored ⊢
  match written : disk.write file text with
  | .ok between =>
    have done : (access.write file text).run disk = _ := change_ok written
    rw [bind_run done] at stored
    cases stored
    rfl
  | .error fault =>
    have failed : (access.write file text).run disk = _ := change_error written
    rw [bind_run failed] at stored
    cases stored

theorem pack_stored (packed : (pack access file directories).run disk = (.ok count, after)) :
    ∃ sources between before, (collect access [] directories).run disk = (.ok sources, between) ∧
      (pack.store access file sources).run before = (.ok count, after) := by
  rw [pack] at packed
  match collected : (collect access [] directories).run disk with
  | (.error message, between) =>
    rw [bind_run collected] at packed
    cases packed
  | (.ok sources, between) =>
    rw [bind_run collected] at packed
    refine ⟨sources, between, ?_⟩
    match made : (access.makeDirectories (Path.dirName file)).run between with
    | (.error message, around) =>
      rw [bind_run made] at packed
      cases packed
    | (.ok _, around) =>
      rw [bind_run made] at packed
      match removed : around.remove file with
      | .ok before =>
        have done : (access.remove file).run around = _ := change_ok removed
        rw [bind_run done] at packed
        exact ⟨before, rfl, packed⟩
      | .error fault =>
        have failed : (access.remove file).run around = _ := change_error removed
        rw [bind_run failed] at packed
        cases fault with
        | missing => exact ⟨around, rfl, packed⟩
        | _ => cases packed

theorem pack_run (packed : (pack access file directories).run disk = (.ok count, after))
    (kept : isTransient file = false) :
    ∃ sources before, Lists sources (disk.firstStub? directories) ∧
      write before file (encode sources) = .ok after := by
  obtain ⟨sources, between, before, collected, stored⟩ := pack_stored packed
  obtain ⟨-, lists⟩ := collect_run lists_nil collected
  refine ⟨_, before, fun path text => ?_, store_run kept stored⟩
  rw [mem_mergeSort]
  exact lists path text

theorem store_new (located : disk.locate file = .ok place)
    (free : disk.kind? place = none) (sources : List (String × String)) :
    ∃ after, (pack.store access file sources).run disk = (.ok sources.length, after) := by
  unfold pack.store
  split
  next => exact ⟨_, rfl⟩
  next =>
    dsimp only
    generalize encode _ = text
    have written : (access.write file text).run disk =
        (.ok (), { disk with files := disk.files.set place text }) := by
      refine change_ok ?_
      rw [write, located]
      simp only [bind, Except.bind, free]
      rfl
    rw [bind_run written]
    exact ⟨_, rfl⟩

theorem pack_new
    (all : ∀ directory ∈ directories, directory.isEmpty = false ∧ disk.kind directory = .ok .directory)
    (made : (access.makeDirectories (Path.dirName file)).run disk = (.ok (), disk))
    (located : disk.locate file = .ok place) (free : disk.kind? place = none) :
    ∃ count after, (pack access file directories).run disk = (.ok count, after) := by
  have removed : (access.remove file).run disk = (.error .missing, disk) := by
    refine change_error ?_
    rw [remove, located]
    simp only [bind, Except.bind, free]
    rfl
  obtain ⟨sources, collected⟩ := collect_of_directories all []
  obtain ⟨after, stored⟩ := store_new located free sources
  refine ⟨sources.length, after, ?_⟩
  rw [pack, bind_run collected]
  rw [bind_run made]
  rw [bind_run removed]
  exact stored

theorem load_run {before : Disk} (written : before.write file (encode sources) = .ok after) :
    (load access file).run after = (.ok sources, after) := by
  have decoded : (Except.toOption (.ok (encode sources) : Except PathFault String)).bind decode? =
      some sources := decode?_encode sources
  rw [load, bind_run (access_kind ..), kind_write written]
  rw [bind_run (access_read ..), read_write written, decoded]
  rfl

end Bundle

end Stubwise
