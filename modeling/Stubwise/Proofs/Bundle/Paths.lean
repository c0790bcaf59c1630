import Mathlib.Data.List.Basic
import Stubwise.Proofs.Stub.Meaning

namespace Stubwise

open List

variable {c : Char} {chars : List Char} {separator text part base file path : String}
  {parts : List String}

namespace Text

theorem not_mem_of_mem_split (member : part ∈ split c text) : c ∉ part.toList := by
  obtain ⟨chars, within, rfl⟩ := mem_map.mp member
  rw [splitChars_eq_splitOn] at within
  rw [String.toList_ofList]
  clear member
  generalize text.toList = whole at within
  induction whole generalizing chars with
  | nil => simp_all
  | cons first rest ih =>
    obtain ⟨head, parts, same⟩ := exists_cons_of_ne_nil (splitOn_ne_nil c rest)
    rw [splitOn_cons_eq_if_modifyHead, same] at within
    rw [same] at ih
    split at within
    · rcases mem_cons.mp within with rfl | within
      · exact not_mem_nil
      · exact ih _ within
    · rename_i differs
      rcases mem_cons.mp within with rfl | within
      · rw [mem_cons, not_or]
        exact ⟨fun same => differs (by simp [same]), ih _ mem_cons_self⟩
      · exact ih _ (mem_cons_of_mem _ within)

theorem mem_intercalate : c ∈ (separator.intercalate parts).toList ↔
    (∃ part ∈ parts, c ∈ part.toList) ∨ 1 < parts.length ∧ c ∈ separator.toList := by
  induction parts with
  | nil => simp
  | cons _ parts ih =>
    cases parts with
    | nil => simp
    | cons =>
      rw [String.intercalate_cons_cons, String.toList_append, String.toList_append, mem_append,
        mem_append, ih]
      grind

theorem plain_of_mem_split {other : Char} (plain : c ∉ text.toList)
    (member : part ∈ split other text) : c ∉ part.toList := by
  intro inside
  rw [← intercalate_split (String.singleton other) other (by simp) text] at plain
  exact plain (mem_intercalate.mpr (.inl ⟨part, member, inside⟩))

theorem utf8ByteSize_ofList_of_ascii (ascii : ∀ c ∈ chars, c.toNat < 128) :
    (String.ofList chars).utf8ByteSize = chars.length := by
  induction chars with
  | nil => rfl
  | cons c _ ih =>
    have one : c.utf8Size = 1 := by
      rw [Char.utf8Size_eq_one_iff]
      exact Nat.le_of_lt_succ (ascii c mem_cons_self)
    rw [String.ofList_cons, String.utf8ByteSize_append, String.utf8ByteSize_singleton, one,
      ih fun c member => ascii c (mem_cons_of_mem _ member), length_cons, Nat.add_comm]

theorem dot_not_mem_base (name : String) : '.' ∉ ("/".intercalate (split '.' name)).toList := by
  rw [mem_intercalate]
  rintro (⟨part, member, inside⟩ | ⟨-, between⟩)
  · exact not_mem_of_mem_split member inside
  · exact absurd between (by decide)

/-- Whether a path has the extension of stubs and no dot but the one that it begins with. -/
def OneDot (path : String) : Prop :=
  ∃ stem, path.toList = stem ++ stubExtension.toList ∧ '.' ∉ stem

theorem OneDot.append {start : String} (plain : '.' ∉ start.toList) (one : OneDot path) :
    OneDot (start ++ path) := by
  obtain ⟨stem, chars, dotless⟩ := one
  refine ⟨start.toList ++ stem, by simp [chars], ?_⟩
  rw [mem_append, not_or]
  exact ⟨plain, dotless⟩

theorem OneDot.intercalate (plain : ∀ part ∈ parts, '.' ∉ part.toList) (one : OneDot file) :
    OneDot ("/".intercalate (parts ++ [file])) := by
  by_cases none : parts = []
  · simpa [none] using one
  · rw [String.intercalate_append_of_ne_nil none (by simp), String.intercalate_singleton]
    refine one.append ?_
    rw [String.toList_append, mem_append, mem_intercalate]
    rintro ((⟨part, member, inside⟩ | ⟨-, between⟩) | between)
    · exact plain part member inside
    · exact absurd between (by decide)
    · exact absurd between (by decide)

theorem OneDot.not_below {other : String} (one : OneDot path)
    (stub : hasSuffix other stubExtension) : hasPrefix path (other ++ "/") = false := by
  obtain ⟨stem, chars, plain⟩ := one
  obtain ⟨start, ends⟩ := isSuffixOf_iff_suffix.mp stub
  rw [hasPrefix, Bool.eq_false_iff, Ne, isPrefixOf_iff_prefix, String.toList_append, ← ends, chars]
  rintro ⟨rest, same⟩
  have extension : stubExtension.toList = ['.', 'p', 'y', 'i'] := rfl
  have slash : "/".toList = ['/'] := rfl
  simp only [extension, slash, append_assoc, cons_append, nil_append] at same
  -- The dot of the other path lies at or before that of this one, but more follows it.
  rcases append_eq_append_iff.mp same with ⟨between, rfl, tail⟩ | ⟨between, rfl, tail⟩
  · cases between with
    | nil => simp at tail
    | cons =>
      rw [cons_append, cons.injEq] at tail
      exact plain (by simp [← tail.1])
  · have longer := congrArg length tail
    simp only [length_append, length_cons, length_nil] at longer
    omega

end Text

namespace Path

open Text

theorem ne_dots_of_dotless (dotless : '.' ∉ part.toList) : part ≠ "." ∧ part ≠ ".." := by
  constructor <;> (rintro rfl; exact dotless (by decide))

theorem foldl_step (rooted : Bool) (named : ∀ part ∈ parts, part ≠ "." ∧ part ≠ "..") (back : List String) :
    parts.foldl (step rooted) back = (parts.filter (· != "")).reverse ++ back := by
  induction parts generalizing back with
  | nil => rfl
  | cons part _ ih =>
    have here := named part mem_cons_self
    rw [foldl_cons, ih (forall_mem_cons.mp named).2]
    by_cases empty : part = "" <;> simp [step, empty, here]

theorem join_oneDot (plain : '.' ∉ base.toList) : OneDot (join base (packageFile ++ stubExtension)) := by
  have file : OneDot (packageFile ++ stubExtension) := ⟨packageFile.toList, by simp, by decide⟩
  have dotless : ∀ part ∈ split '/' base, '.' ∉ part.toList := fun _ member =>
    plain_of_mem_split plain member
  have named : ∀ part ∈ split '/' base ++ [packageFile ++ stubExtension], part ≠ "." ∧ part ≠ ".." := by
    rw [forall_mem_append, forall_mem_singleton]
    exact ⟨fun part member => ne_dots_of_dotless (dotless part member), by decide⟩
  unfold join
  by_cases empty : base.isEmpty = true
  · rw [if_neg (by simp [empty]; decide), if_pos empty]
    exact file
  · rw [if_neg (by simp [empty]), if_neg empty, if_neg (by decide), cleanText, clean,
      split_last "/" '/' rfl (by decide), foldl_step _ named, append_nil, reverse_reverse, text]
    have whole : OneDot ("/".intercalate
        ((split '/' base).filter (· != "") ++ [packageFile ++ stubExtension])) :=
      file.intercalate fun part member => dotless part (mem_of_mem_filter member)
    rw [filter_append, filter_cons_of_pos (by decide), filter_nil]
    split
    · exact whole.append (by decide)
    · rw [if_neg (by simp)]
      exact whole

end Path

end Stubwise
