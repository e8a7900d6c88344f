import Mathlib.Data.List.DropRight
import Mathlib.Data.List.Nodup
import Mathlib.Logic.Function.Basic

/-!
# Lines with a key and a value

A text of lines `key: value`, as a program prints what it has measured. `readLines` reads such a
text back into a dictionary: it splits the text into lines, splits each line at its first colon, and
strips both parts of white space. Lines without a colon are skipped, and the last of two lines with
the same key counts. `readLines_flatMap` is the round trip: what is read from printed entries is the
dictionary of these entries, and `dictionary_of_mem` finds them in it. Texts are ASCII.
-/

set_option autoImplicit false
set_option relaxedAutoImplicit false

namespace GameEngine.Library.KeyedLines

/-! ### Reading -/

/-- The byte ends a line. -/
def isBreak (byte : UInt8) : Bool := (10 ≤ byte && byte ≤ 13) || (28 ≤ byte && byte ≤ 30)

/-- The byte is white space. -/
def isBlank (byte : UInt8) : Bool := isBreak byte || byte == 9 || byte == 31 || byte == 32

/-- The lines of a text whose first line starts with what is given. A carriage return and a newline
behind it end one line, and no line follows the last end of a line. -/
def linesFrom (line : List UInt8) : List UInt8 → List (List UInt8)
  | [] => if line = [] then [] else [line]
  | 13 :: 10 :: rest => line :: linesFrom [] rest
  | byte :: rest =>
    if isBreak byte then line :: linesFrom [] rest else linesFrom (line ++ [byte]) rest

/-- The lines of a text. -/
def splitLines (text : List UInt8) : List (List UInt8) := linesFrom [] text

/-- A text without the white space around it. -/
def strip (text : List UInt8) : List UInt8 := (text.dropWhile isBlank).rdropWhile isBlank

/-- What is known of a key. -/
abbrev Dictionary := List UInt8 → Option (List UInt8)

/-- Reads one line. -/
def readLine (dictionary : Dictionary) (line : List UInt8) : Dictionary :=
  if 58 ∈ line then
    Function.update dictionary (strip (line.takeWhile (· != 58)))
      (some (strip (line.dropWhile (· != 58)).tail))
  else dictionary

/-- Reads the lines of a text. -/
def readLines (text : List UInt8) : Dictionary := (splitLines text).foldl readLine fun _ ↦ none

/-! ### What is printed is read back -/

/-- A text that a line can hold: it does not end the line, and no white space is around it. -/
structure IsPlain (text : List UInt8) : Prop where
  not_break : ∀ byte ∈ text, isBreak byte = false
  head : ∀ byte, text.head? = some byte → isBlank byte = false
  last : ∀ byte, text.getLast? = some byte → isBlank byte = false

/-- A text without any white space can be held by a line. -/
theorem isPlain_of_not_blank {text : List UInt8} (htext : ∀ byte ∈ text, isBlank byte = false) :
    IsPlain text := by
  refine ⟨fun byte hbyte ↦ ?_, fun byte hbyte ↦ ?_, fun byte hbyte ↦ ?_⟩
  · have hblank := htext byte hbyte
    simp only [isBlank, Bool.or_eq_false_iff] at hblank
    exact hblank.1.1.1
  · exact htext byte (List.mem_of_mem_head? hbyte)
  · exact htext byte (List.mem_of_getLast? hbyte)

/-- An entry whose key and value come back when its line is read. -/
structure IsEntry (entry : List UInt8 × List UInt8) : Prop where
  key : IsPlain entry.1
  no_colon : 58 ∉ entry.1
  value : IsPlain entry.2

/-- The line of an entry. -/
def printLine (entry : List UInt8 × List UInt8) : List UInt8 :=
  entry.1 ++ 58 :: 32 :: entry.2 ++ [10]

/-- The dictionary of a list of entries. -/
def dictionary (entries : List (List UInt8 × List UInt8)) : Dictionary :=
  entries.foldl (fun known entry ↦ Function.update known entry.1 (some entry.2)) fun _ ↦ none

/-- A text without white space around it is not stripped of anything. -/
theorem IsPlain.strip_eq {text : List UInt8} (hplain : IsPlain text) : strip text = text := by
  have hhead : text.dropWhile isBlank = text := by
    cases text with
    | nil => rfl
    | cons byte rest => exact List.dropWhile_cons_of_neg (by simp [hplain.head byte rfl])
  have hlast : text.rdropWhile isBlank = text := by
    rw [List.rdropWhile_eq_self_iff]
    intro hne
    rw [hplain.last _ (List.getLast?_eq_some_getLast hne)]
    simp
  rw [strip, hhead, hlast]

/-- White space in front of a text is stripped. -/
theorem IsPlain.strip_blank {text : List UInt8} (hplain : IsPlain text) :
    strip (32 :: text) = text := by
  have hdrop : (32 :: text).dropWhile isBlank = text.dropWhile isBlank :=
    List.dropWhile_cons_of_pos (by decide)
  rw [strip, hdrop]
  exact hplain.strip_eq

/-- A line that does not break ends at the newline behind it. -/
theorem linesFrom_append {body : List UInt8} (hbody : ∀ byte ∈ body, isBreak byte = false)
    (line rest : List UInt8) :
    linesFrom line (body ++ 10 :: rest) = (line ++ body) :: linesFrom [] rest := by
  induction body generalizing line with
  | nil =>
    rw [List.nil_append, List.append_nil, linesFrom.eq_3 _ _ _ (by simp), if_pos (by decide)]
  | cons byte body ih =>
    have hbyte := hbody byte List.mem_cons_self
    have hreturn : byte ≠ 13 := by
      rintro rfl
      exact absurd hbyte (by decide)
    have hrest := ih (fun other hother ↦ hbody other (List.mem_cons_of_mem _ hother))
    rw [List.cons_append, linesFrom.eq_3 _ _ _ (by simp [hreturn]), if_neg (by simp [hbyte]), hrest,
      List.append_assoc, List.singleton_append]

/-- The line of an entry, without its newline. -/
theorem IsEntry.not_break {entry : List UInt8 × List UInt8} (hentry : IsEntry entry) :
    ∀ byte ∈ entry.1 ++ 58 :: 32 :: entry.2, isBreak byte = false := by
  intro byte hbyte
  simp only [List.mem_append, List.mem_cons] at hbyte
  rcases hbyte with hkey | rfl | rfl | hvalue
  · exact hentry.key.not_break byte hkey
  · decide
  · decide
  · exact hentry.value.not_break byte hvalue

/-- The lines of printed entries are read one by one. -/
theorem splitLines_flatMap {entries : List (List UInt8 × List UInt8)}
    (hentries : ∀ entry ∈ entries, IsEntry entry) :
    splitLines (entries.flatMap printLine) =
        entries.map fun entry ↦ entry.1 ++ 58 :: 32 :: entry.2 := by
  unfold splitLines
  induction entries with
  | nil => rfl
  | cons entry entries ih =>
    have hline : printLine entry ++ entries.flatMap printLine =
        (entry.1 ++ 58 :: 32 :: entry.2) ++ 10 :: entries.flatMap printLine := by
      simp [printLine]
    rw [List.flatMap_cons, hline,
      linesFrom_append (hentries entry List.mem_cons_self).not_break, List.nil_append,
      List.map_cons,
      ih fun other hother ↦ hentries other (List.mem_cons_of_mem _ hother)]

/-- The line of an entry is read as the entry. -/
theorem readLine_entry {entry : List UInt8 × List UInt8} (hentry : IsEntry entry)
    (known : Dictionary) : readLine known (entry.1 ++ 58 :: 32 :: entry.2) =
      Function.update known entry.1 (some entry.2) := by
  have hall : ∀ byte ∈ entry.1, (byte != 58) = true := fun byte hbyte ↦ by
    simp only [bne_iff_ne]
    rintro rfl
    exact hentry.no_colon hbyte
  rw [readLine, if_pos (by simp), List.takeWhile_append_of_pos hall,
    List.dropWhile_append_of_pos hall]
  simp [hentry.key.strip_eq, hentry.value.strip_blank]

/-- What is read from printed entries is their dictionary. -/
theorem readLines_flatMap {entries : List (List UInt8 × List UInt8)}
    (hentries : ∀ entry ∈ entries, IsEntry entry) :
    readLines (entries.flatMap printLine) = dictionary entries := by
  have hfold : ∀ known : Dictionary, (entries.map fun entry ↦ entry.1 ++ 58 :: 32 :: entry.2).foldl
      readLine known = entries.foldl
        (fun (known : Dictionary) entry ↦ Function.update known entry.1 (some entry.2)) known := by
    induction entries with
    | nil => exact fun _ ↦ rfl
    | cons entry entries ih =>
      intro known
      rw [List.map_cons, List.foldl_cons, List.foldl_cons,
        readLine_entry (hentries entry List.mem_cons_self),
        ih fun other hother ↦ hentries other (List.mem_cons_of_mem _ hother)]
  rw [readLines, splitLines_flatMap hentries]
  exact hfold _

/-! ### Dictionaries -/

/-- The last entry of a key counts. -/
theorem dictionary_concat (entries : List (List UInt8 × List UInt8))
    (entry : List UInt8 × List UInt8) :
    dictionary (entries ++ [entry]) = Function.update (dictionary entries) entry.1 (some entry.2) :=
  List.foldl_concat ..

/-- A key that no entry has is not known. -/
theorem dictionary_eq_none {entries : List (List UInt8 × List UInt8)} {key : List UInt8}
    (hkey : key ∉ entries.map Prod.fst) : dictionary entries key = none := by
  induction entries using List.reverseRecOn with
  | nil => rfl
  | append_singleton entries entry ih =>
    rw [List.map_append, List.mem_append, not_or] at hkey
    have hne : key ≠ entry.1 := fun heq ↦ hkey.2 (by simp [heq])
    rw [dictionary_concat, Function.update_of_ne hne, ih hkey.1]

/-- Of entries with different keys, each is found. -/
theorem dictionary_of_mem {entries : List (List UInt8 × List UInt8)}
    (hnodup : (entries.map Prod.fst).Nodup) {entry : List UInt8 × List UInt8}
    (hentry : entry ∈ entries) : dictionary entries entry.1 = some entry.2 := by
  induction entries using List.reverseRecOn with
  | nil => cases hentry
  | append_singleton entries last ih =>
    rw [List.map_append, List.map_singleton, List.nodup_append'] at hnodup
    rw [dictionary_concat]
    rcases List.mem_append.mp hentry with hbefore | hlast
    · have hne : entry.1 ≠ last.1 := fun heq ↦
        hnodup.2.2 (List.mem_map_of_mem hbefore) (by simp [heq])
      rw [Function.update_of_ne hne, ih hnodup.1 hbefore]
    · rw [List.mem_singleton.mp hlast, Function.update_self]

end GameEngine.Library.KeyedLines
