import GameEngine.Core.TraceStrings
import GameEngine.Library.JsonDocument

/-!
# The trace is a document of JSON

`Profiler.traceValue` is what a trace means: the time unit and the list of the events, which are two
about the process, one for each thread, one for each event of the table and three counters.
`chrome_trace_document` says that the text of `chromeTrace`, after any calls, is read as that value
exactly if the names and the categories that are kept have no control character but the newline, and
that otherwise it is not read at all.
-/

set_option autoImplicit false
set_option relaxedAutoImplicit false

namespace GameEngine.Core

open GameEngine.Library
open Json

/-! ### Texts of objects -/

/-- A name of a member as a trace writes it. -/
def nameText (name : String) : Text := quoted (ascii name)

/-- A member as a trace writes it. -/
def memberText (name : String) (value : Text) : Text := nameText name ++ 58 :: value

/-- An object as a trace writes it, on one line. -/
def objectText (members : List Text) : Text := 123 :: List.intercalate [44] members ++ [125]

/-- A member of a value. -/
def named (name : String) (value : Json) : List ℕ × Json := (codes (ascii name), value)

/-- A text that may stand in a trace. -/
def IsShown (text : Text) : Prop := IsAsciiText text ∧ Escapable text

instance (text : Text) : Decidable (IsShown text) := inferInstanceAs (Decidable (_ ∧ _))

theorem codes_append (first second : Text) :
    codes (first ++ second) = codes first ++ codes second :=
  List.map_append

theorem jsonString_of_isShown {text : Text} (htext : IsShown text) :
    JsonString (codes (quoted text)) (codes text) :=
  jsonString_quoted.mpr (jsonChars_jsonEscape htext.1 htext.2)

theorem reads_quoted {text : Text} (htext : IsShown text) :
    Reads 1 (codes (quoted text)) (.string (codes text)) :=
  reads_string (jsonString_of_isShown htext)

theorem readsMember_memberText {depth : ℕ} {name : String} (hname : IsShown (ascii name))
    {text : Text}
    {value : Json} (hvalue : Reads depth (codes text) value) :
    ReadsMember depth (codes (memberText name text)) (named name value) := by
  have hmember := readsMember (jsonString_of_isShown hname) hvalue
  have htext : codes (memberText name text) = codes (quoted (ascii name)) ++ 58 :: codes text := by
    simp [memberText, nameText, codes]
  rw [htext]
  exact hmember

theorem codes_intercalate (separator : Text) (texts : List Text) :
    codes (List.intercalate separator texts) =
      List.intercalate (codes separator) (texts.map codes) := by
  induction texts with
  | nil => rfl
  | cons text texts ih =>
    by_cases hnil : texts = []
    · subst hnil
      simp
    · rw [List.intercalate_cons_of_ne_nil hnil, List.map_cons,
        List.intercalate_cons_of_ne_nil (by simpa using hnil), codes_append, codes_append, ih]

/-- An object is read as the object of its members. -/
theorem reads_objectText {depth : ℕ} (members : List (Text × List ℕ × Json)) (hne : members ≠ [])
    (hmembers : ∀ entry ∈ members, ReadsMember depth (codes entry.1) entry.2) :
    Reads (depth + 1) (codes (objectText (members.map Prod.fst)))
      (.object (members.map Prod.snd)) := by
  have hwhite : IsWhite [] := by simp [IsWhite]
  have hobject := reads_object hwhite hwhite (members.map fun entry ↦ (codes entry.1, entry.2))
    (by simpa using hne) (by
      intro entry hentry
      obtain ⟨source, hsource, rfl⟩ := List.mem_map.mp hentry
      exact hmembers source hsource)
  have htext : codes (objectText (members.map Prod.fst)) = 123 :: ([] ++
      List.intercalate [44] ((members.map fun entry ↦ (codes entry.1, entry.2)).map Prod.fst) ++
        [] ++ [125]) := by
    have hcomma : codes [44] = [44] := rfl
    have hmap : (members.map fun entry ↦ (codes entry.1, entry.2)).map Prod.fst =
        (members.map Prod.fst).map codes := by simp
    rw [hmap, ← hcomma, ← codes_intercalate]
    simp [objectText, codes]
  have hvalue : (members.map fun entry ↦ (codes entry.1, entry.2)).map Prod.snd =
      members.map Prod.snd := by simp
  rw [htext, ← hvalue]
  exact hobject

/-- A member whose value is not read is not read. -/
theorem failsMember_memberText {depth : ℕ} {name : String} (hname : IsShown (ascii name))
    {text : Text}
    (hvalue : Fails depth (codes text)) : FailsMember depth (codes (memberText name text)) := by
  have hmember := failsMember (jsonString_of_isShown hname) hvalue
  have htext : codes (memberText name text) = codes (quoted (ascii name)) ++ 58 :: codes text := by
    simp [memberText, nameText, codes]
  rw [htext]
  exact hmember

/-- An object with a member that is not read is not read. -/
theorem fails_objectText {depth : ℕ} (good : List (Text × List ℕ × Json)) {name : String}
    {bad : Text} (others : List Text)
    (hgood : ∀ entry ∈ good, ReadsMember depth (codes entry.1) entry.2)
    (hbad : FailsMember depth (codes (memberText name bad))) :
    Fails (depth + 1)
        (codes (objectText (good.map Prod.fst ++ memberText name bad :: others))) := by
  have hwhite : IsWhite [] := by simp [IsWhite]
  have hobject := fails_object hwhite (good.map fun entry ↦ (codes entry.1, entry.2))
    (others.map codes) (by
      intro entry hentry
      obtain ⟨source, hsource, rfl⟩ := List.mem_map.mp hentry
      exact hgood source hsource) hbad rfl [125]
  have htext : codes (objectText (good.map Prod.fst ++ memberText name bad :: others)) =
    123 :: ([] ++
      List.intercalate [44] ((good.map fun entry ↦ (codes entry.1, entry.2)).map Prod.fst ++
        codes (memberText name bad) :: others.map codes) ++ [125]) := by
    have hcomma : codes [44] = [44] := rfl
    have hmap : (good.map fun entry ↦ (codes entry.1, entry.2)).map Prod.fst ++
        codes (memberText name bad) :: others.map codes =
          (good.map Prod.fst ++ memberText name bad :: others).map codes := by simp
    rw [hmap, ← hcomma, ← codes_intercalate]
    simp [objectText, codes]
  rw [htext]
  exact hobject

/-- With a control character that is copied, the characters do not come to the quotation mark. -/
theorem readChars_jsonEscape_eq_none {text : Text} (hascii : IsAsciiText text)
    (hraw : ¬ Escapable text) (rest : List ℕ) : ∀ count,
      readChars count (codes (jsonEscape text) ++ rest) = none := by
  induction text with
  | nil => exact absurd (by simp [Escapable]) hraw
  | cons byte text ih =>
    rintro (_ | count)
    · rfl
    have hascii' : IsAsciiText text :=
        fun other hother ↦ hascii other (List.mem_cons_of_mem _ hother)
    by_cases hbyte : 32 ≤ byte ∨ byte = 10
    · have hnone := ih hascii' (fun hescapable ↦ hraw fun other hother ↦ by
        rcases List.mem_cons.mp hother with rfl | htext
        · exact hbyte
        · exact hescapable other htext) count
      by_cases hbackslash : byte = 92
      · subst hbackslash
        rw [readChars, show codes (jsonEscape (92 :: text)) = backslash :: 92 ::
          codes (jsonEscape text) from rfl]
        simp [readChar, escaped, hnone, backslash_ne]
      by_cases hquote : byte = 34
      · subst hquote
        rw [readChars, show codes (jsonEscape (34 :: text)) = backslash :: 34 ::
          codes (jsonEscape text) from rfl]
        simp [readChar, escaped, hnone, backslash_ne]
      by_cases hnewline : byte = 10
      · subst hnewline
        rw [readChars, show codes (jsonEscape (10 :: text)) = backslash :: 110 ::
          codes (jsonEscape text) from rfl]
        simp [readChar, escaped, hnone, backslash_ne]
      · have hcopy : codes (jsonEscape (byte :: text)) = byte.toNat :: codes (jsonEscape text) := by
          simp [jsonEscape, codes, hbackslash, hquote, hnewline]
        have hspace : 32 ≤ byte.toNat := hbyte.resolve_right hnewline
        have hlast : byte.toNat ≤ 0x10FFFF := (UInt8.toNat_lt byte).le.trans (by decide)
        have hself : byte.toNat ≠ quotationMark ∧ byte.toNat ≠ backslash :=
          ⟨fun heq ↦ hquote (UInt8.toNat_inj.mp heq), fun heq ↦ hbackslash (UInt8.toNat_inj.mp heq)⟩
        rw [readChars, hcopy]
        simp [readChar, hself, hspace, hlast, hnone]
    · obtain ⟨hcontrol, hnewline⟩ := not_or.mp hbyte
      have hlt : ¬ 32 ≤ byte.toNat := hcontrol
      have hspecial : byte ≠ 92 ∧ byte ≠ 34 := by
        refine ⟨?_, ?_⟩ <;> rintro rfl <;> exact hcontrol (by decide)
      have hcopy : codes (jsonEscape (byte :: text)) = byte.toNat :: codes (jsonEscape text) := by
        simp [jsonEscape, codes, hspecial, hnewline]
      have hself : byte.toNat ≠ quotationMark ∧ byte.toNat ≠ backslash := by
        unfold quotationMark backslash
        omega
      rw [readChars, hcopy]
      simp [readChar, hself, hlt]

theorem fails_quoted {text : Text} (hascii : IsAsciiText text) (hraw : ¬ Escapable text) :
    Fails 1 (codes (quoted text)) := by
  have htext : codes (quoted text) = quotationMark :: codes (jsonEscape text ++ [34]) := rfl
  rw [htext]
  refine fails_string fun count rest ↦ ?_
  rw [codes_append, List.append_assoc]
  exact readChars_jsonEscape_eq_none hascii hraw _ count

/-! ### The value of a trace -/

namespace Profiler

variable {Thread : Type}

/-- The last member of an event. -/
def Event.detail (e : Event) : List ℕ × Json :=
  if e.phase = spanPhase then named "dur" (.integer e.durUs.toNat)
  else named "args" (.object
    [named "bytes" (.integer e.counter.toNat), named "value" (.integer e.counter.toNat)])

/-- What the line of an event means. -/
def Event.value (e : Event) : Json :=
  .object [named "name" (.string (codes (Telemetry.cString e.name))),
    named "cat" (.string (codes (Telemetry.cString e.category))),
    named "ph" (.string (codes [e.phase])), named "ts" (.integer e.tsUs.toNat),
    named "pid" (.integer 1), named "tid" (.integer e.tid.toNat), e.detail]

/-- What the line of a thread means. -/
def threadValue (tid : UInt32) : Json :=
  .object [named "name" (.string (codes (ascii "thread_name"))),
    named "ph" (.string (codes (ascii "M"))), named "pid" (.integer 1),
    named "tid" (.integer tid.toNat), named "args" (.object
      [named "name" (.string (codes (ascii "worker-" ++ natText tid.toNat)))])]

/-- What the line of a counter means. -/
def counterValue (name category : Text) (endTs value : UInt64) : Json :=
  .object [named "name" (.string (codes name)), named "cat" (.string (codes category)),
    named "ph" (.string (codes (ascii "C"))), named "ts" (.integer endTs.toNat),
    named "pid" (.integer 1), named "tid" (.integer 1),
    named "args" (.object [named "value" (.integer value.toNat)])]

/-- What the lines about the process mean. -/
def processValue (name label value : String) : Json :=
  .object [named "name" (.string (codes (ascii name))), named "ph" (.string (codes (ascii "M"))),
    named "pid" (.integer 1), named "args" (.object [named label (.string (codes (ascii value)))])]

/-- The events of the table. -/
def recordedEvents (p : Profiler Thread) : List Event := (List.range p.eventCount).map p.events

/-- The threads that have a line. -/
def threadIdsShown (p : Profiler Thread) : List UInt32 :=
  (p.recordedEvents.map Event.tid).foldl rememberTid []

/-- The time of the last event, or that of the export. -/
def endTs (p : Profiler Thread) (nowUs : UInt64) : UInt64 :=
  if p.eventCount = 0 then nowUs else (p.events (p.eventCount - 1)).tsUs

/-- The events of a trace. -/
def traceEvents (p : Profiler Thread) (nowUs : UInt64) : List Json :=
  [processValue "process_name" "name" "eoc",
    processValue "process_labels" "labels" "engineoptimizationcore"] ++
  p.threadIdsShown.map threadValue ++ p.recordedEvents.map Event.value ++
  [counterValue (ascii "cache_hits") (ascii "cache") (p.endTs nowUs) p.cacheHits,
    counterValue (ascii "cache_misses") (ascii "cache") (p.endTs nowUs) p.cacheMisses,
    counterValue (ascii "trace_dropped") (ascii "profiler") (p.endTs nowUs) p.dropped]

/-- What a trace means. -/
def traceValue (p : Profiler Thread) (nowUs : UInt64) : Json :=
  .object [named "displayTimeUnit" (.string (codes (ascii "us"))),
    named "traceEvents" (.array (p.traceEvents nowUs))]

/-! ### Lines -/

/-- The text of a natural number is read as the number. -/
theorem reads_natText (number : ℕ) : Reads 1 (codes (natText number)) (.integer number) :=
  reads_integer number

theorem reads_one : Reads 1 (codes (ascii "1")) (.integer 1) := by
  have hone : ascii "1" = natText 1 := by decide
  rw [hone]
  exact reads_integer 1

/-- A span or a counter of the table. -/
def Event.IsRecorded (e : Event) : Prop := e.phase = spanPhase ∨ e.phase = counterPhase

/-- The last member of an event, as a trace writes it. -/
def Event.detailText (e : Event) : Text :=
  if e.phase = spanPhase then memberText "dur" (natText e.durUs.toNat)
  else memberText "args" (objectText [memberText "bytes" (natText e.counter.toNat),
    memberText "value" (natText e.counter.toNat)])

theorem Event.line_eq (e : Event) : e.line = ascii "    " ++ objectText
    [memberText "name" (quoted (Telemetry.cString e.name)),
      memberText "cat" (quoted (Telemetry.cString e.category)),
      memberText "ph" [34, e.phase, 34], memberText "ts" (natText e.tsUs.toNat),
      memberText "pid" (ascii "1"), memberText "tid" (natText e.tid.toNat), e.detailText] := by
  have hname : ascii "    \x7b\"name\":\"" =
      ascii "    " ++ 123 :: (nameText "name" ++ [58, 34]) := by
    decide
  have hcat : ascii "\",\"cat\":\"" = 34 :: 44 :: (nameText "cat" ++ [58, 34]) := by decide
  have hph : ascii "\",\"ph\":\"" = 34 :: 44 :: (nameText "ph" ++ [58, 34]) := by decide
  have hts : ascii "\",\"ts\":" = 34 :: 44 :: (nameText "ts" ++ [58]) := by decide
  have htid : ascii ",\"pid\":1,\"tid\":" =
      44 :: (nameText "pid" ++ 58 :: (ascii "1" ++ 44 :: (nameText "tid" ++ [58]))) := by decide
  have hdur : ascii ",\"dur\":" = 44 :: (nameText "dur" ++ [58]) := by decide
  have hargs : ascii ",\"args\":\x7b\"bytes\":" =
      44 :: (nameText "args" ++ 58 :: 123 :: (nameText "bytes" ++ [58])) := by decide
  have hvalue : ascii ",\"value\":" = 44 :: (nameText "value" ++ [58]) := by decide
  have hclose : ascii "\x7d" = [125] := by decide
  rw [Event.line, Event.detailText, hname, hcat, hph, hts, htid, hdur, hargs, hvalue, hclose]
  split_ifs <;>
    simp only [objectText, memberText, quoted, List.intercalate_cons_cons,
      List.intercalate_singleton, List.append_assoc, List.cons_append, List.nil_append]

theorem threadLine_eq (tid : UInt32) : threadLine tid = ascii "    " ++ objectText
    [memberText "name" (quoted (ascii "thread_name")), memberText "ph" (quoted (ascii "M")),
      memberText "pid" (ascii "1"), memberText "tid" (natText tid.toNat),
      memberText "args" (objectText
        [memberText "name" (34 :: (ascii "worker-" ++ natText tid.toNat) ++ [34])])] := by
  have hstart : ascii "    \x7b\"name\":\"thread_name\",\"ph\":\"M\",\"pid\":1,\"tid\":" =
      ascii "    " ++ 123 :: (nameText "name" ++ 58 :: (quoted (ascii "thread_name") ++
        44 :: (nameText "ph" ++ 58 :: (quoted (ascii "M") ++ 44 :: (nameText "pid" ++
          58 :: (ascii "1" ++ 44 :: (nameText "tid" ++ [58]))))))) := by decide
  have hargs : ascii ",\"args\":\x7b\"name\":\"worker-" =
      44 :: (nameText "args" ++ 58 :: 123 :: (nameText "name" ++ 58 :: 34 :: ascii "worker-")) := by
    decide
  have hclose : ascii "\"\x7d\x7d" = [34, 125, 125] := by decide
  rw [threadLine, hstart, hargs, hclose]
  simp only [objectText, memberText, List.intercalate_cons_cons, List.intercalate_singleton,
    List.append_assoc, List.cons_append, List.nil_append]

theorem counterLine_eq (name category : Text) (endTs value : UInt64) :
    counterLine name category endTs value = ascii "    " ++ objectText
      [memberText "name" (34 :: name ++ [34]), memberText "cat" (34 :: category ++ [34]),
        memberText "ph" (quoted (ascii "C")), memberText "ts" (natText endTs.toNat),
        memberText "pid" (ascii "1"), memberText "tid" (ascii "1"),
        memberText "args" (objectText [memberText "value" (natText value.toNat)])] := by
  have hname : ascii "    \x7b\"name\":\"" =
      ascii "    " ++ 123 :: (nameText "name" ++ [58, 34]) := by
    decide
  have hcat : ascii "\",\"cat\":\"" = 34 :: 44 :: (nameText "cat" ++ [58, 34]) := by decide
  have hph : ascii "\",\"ph\":\"C\",\"ts\":" = 34 :: 44 :: (nameText "ph" ++
      58 :: (quoted (ascii "C") ++ 44 :: (nameText "ts" ++ [58]))) := by decide
  have hargs : ascii ",\"pid\":1,\"tid\":1,\"args\":\x7b\"value\":" = 44 :: (nameText "pid" ++
      58 :: (ascii "1" ++ 44 :: (nameText "tid" ++ 58 :: (ascii "1" ++
        44 :: (nameText "args" ++ 58 :: 123 :: (nameText "value" ++ [58])))))) := by decide
  have hclose : ascii "\x7d\x7d" = [125, 125] := by decide
  rw [counterLine, hname, hcat, hph, hargs, hclose]
  simp only [objectText, memberText, List.intercalate_cons_cons, List.intercalate_singleton,
    List.append_assoc, List.cons_append, List.nil_append]

/-- A line about the process. -/
def processLine (name label value : String) : Text :=
  ascii "    " ++ objectText
    [memberText "name" (quoted (ascii name)), memberText "ph" (quoted (ascii "M")),
      memberText "pid" (ascii "1"),
      memberText "args" (objectText [memberText label (quoted (ascii value))])]

/-- The lines of a trace. -/
def traceLines (p : Profiler Thread) (nowUs : UInt64) : List Text :=
  [processLine "process_name" "name" "eoc",
    processLine "process_labels" "labels" "engineoptimizationcore"] ++
  p.threadIdsShown.map threadLine ++ p.recordedEvents.map Event.line ++
  [counterLine (ascii "cache_hits") (ascii "cache") (p.endTs nowUs) p.cacheHits,
    counterLine (ascii "cache_misses") (ascii "cache") (p.endTs nowUs) p.cacheMisses,
    counterLine (ascii "trace_dropped") (ascii "profiler") (p.endTs nowUs) p.dropped]

/-- The lines are separated by commas and ends of lines. -/
theorem foldl_emit (lines : List Text) (text : Text) :
    (lines.foldl emit (text, false)).1 = text ++ (lines.map (ascii ",\n" ++ ·)).flatten ∧
      (lines.foldl emit (text, false)).2 = false := by
  induction lines generalizing text with
  | nil => simp
  | cons line lines ih =>
    obtain ⟨htext, hfirst⟩ := ih (text ++ ascii ",\n" ++ line)
    rw [List.foldl_cons,
        show emit (text, false) line = (text ++ ascii ",\n" ++ line, false) from rfl]
    exact ⟨by rw [htext]; simp, hfirst⟩

theorem foldl_emit_eq {lines : List Text} (hne : lines ≠ []) (text : Text) :
    (lines.foldl emit (text, true)).1 = text ++ List.intercalate (ascii ",\n") lines := by
  obtain ⟨first, others, rfl⟩ := List.exists_cons_of_ne_nil hne
  rw [List.foldl_cons, show emit (text, true) first = (text ++ first, false) from rfl,
    (foldl_emit others _).1, List.append_assoc]
  congr 1
  induction others generalizing first with
  | nil => simp
  | cons second others ih =>
    rw [List.intercalate_cons_cons, ← ih second (by simp)]
    simp

/-- The text of a trace. -/
theorem chromeTrace_eq (p : Profiler Thread) (nowUs : UInt64) : p.chromeTrace nowUs =
    ascii "\x7b\n  \"displayTimeUnit\": \"us\",\n  \"traceEvents\": [\n" ++
      List.intercalate (ascii ",\n") (p.traceLines nowUs) ++ ascii "\n  ]\n\x7d\n" := by
  have hname : ascii "    \x7b\"name\":\"process_name\",\"ph\":\"M\",\"pid\":1," ++
      ascii "\"args\":\x7b\"name\":\"eoc\"\x7d\x7d" =
        processLine "process_name" "name" "eoc" := by decide
  have hlabels : ascii "    \x7b\"name\":\"process_labels\",\"ph\":\"M\",\"pid\":1," ++
      ascii "\"args\":\x7b\"labels\":\"engineoptimizationcore\"\x7d\x7d" =
        processLine "process_labels" "labels" "engineoptimizationcore" := by decide
  rw [← foldl_emit_eq (by simp [traceLines])]
  unfold chromeTrace
  rw [hname, hlabels]
  simp only [traceLines, List.foldl_append, List.foldl_cons, List.foldl_nil]
  rfl

/-! ### The lines are read -/

theorem isWhite_indent : IsWhite (codes (ascii "    ")) := by decide

/-- A line of an object is read as the object of its members. -/
theorem reads_line {depth : ℕ} (members : List (Text × List ℕ × Json)) (hne : members ≠ [])
    (hmembers : ∀ entry ∈ members, ReadsMember depth (codes entry.1) entry.2) :
    Reads (depth + 1) (codes (ascii "    " ++ objectText (members.map Prod.fst)))
      (.object (members.map Prod.snd)) := by
  rw [codes_append]
  exact (reads_objectText members hne hmembers).white (Nat.succ_ne_zero depth) isWhite_indent

/-- A member that is a string. -/
theorem readsMember_quoted {name : String} (hname : IsShown (ascii name)) {text : Text}
    (htext : IsShown text) : ReadsMember 2 (codes (memberText name (quoted text)))
      (named name (.string (codes text))) :=
  readsMember_memberText hname ((reads_quoted htext).mono (Nat.le_succ 1))

/-- A member that is a number. -/
theorem readsMember_natText {depth : ℕ} {name : String} (hname : IsShown (ascii name))
    (number : ℕ) :
    ReadsMember (depth + 1) (codes (memberText name (natText number)))
      (named name (.integer number)) :=
  readsMember_memberText hname ((reads_natText number).mono (Nat.succ_le_succ (Nat.zero_le depth)))

theorem readsMember_one {name : String} (hname : IsShown (ascii name)) :
    ReadsMember 2 (codes (memberText name (ascii "1"))) (named name (.integer 1)) :=
  readsMember_memberText hname (reads_one.mono (Nat.le_succ 1))

/-- A text that needs no escape. -/
def NeedsNoEscape (text : Text) : Prop :=
  ∀ byte ∈ text, 32 ≤ byte ∧ byte < 128 ∧ byte ≠ 34 ∧ byte ≠ 92

instance (text : Text) : Decidable (NeedsNoEscape text) := List.decidableBAll _ text

theorem NeedsNoEscape.quoted_eq {text : Text} (htext : NeedsNoEscape text) :
    quoted text = 34 :: text ++ [34] := by
  have hescape : jsonEscape text = text := by
    have hsame : jsonEscape text = text.flatMap fun byte ↦ [byte] := by
      refine List.flatMap_congr fun byte hbyte ↦ ?_
      obtain ⟨hspace, -, hquote, hbackslash⟩ := htext byte hbyte
      have hnewline : byte ≠ 10 := by
        rintro rfl
        exact absurd hspace (by decide)
      rw [if_neg hbackslash, if_neg hquote, if_neg hnewline]
    rw [hsame, List.flatMap_singleton']
  rw [quoted, hescape]

theorem NeedsNoEscape.isShown {text : Text} (htext : NeedsNoEscape text) : IsShown text :=
  ⟨fun byte hbyte ↦ (htext byte hbyte).2.1, fun byte hbyte ↦ .inl (htext byte hbyte).1⟩

/-- The letter of a phase. -/
theorem needsNoEscape_phase {e : Event} (he : e.IsRecorded) : NeedsNoEscape [e.phase] := by
  rcases he with hphase | hphase <;> rw [hphase] <;> decide

theorem needsNoEscape_worker (tid : UInt32) :
    NeedsNoEscape (ascii "worker-" ++ natText tid.toNat) := by
  intro byte hbyte
  rcases List.mem_append.mp hbyte with hprefix | hdigit
  · have hworker : NeedsNoEscape (ascii "worker-") := by decide
    exact hworker byte hprefix
  · have hdigit := isDigit_of_mem_natText hdigit
    simp only [isDigit, Bool.and_eq_true, decide_eq_true_eq] at hdigit
    obtain ⟨hlower, hupper⟩ := hdigit
    simp only [UInt8.le_iff_toNat_le, UInt8.lt_iff_toNat_lt, ne_eq, ← UInt8.toNat_inj] at *
    simp only [UInt8.reduceToNat] at *
    omega

theorem Event.reads_detail (e : Event) : ReadsMember 2 (codes e.detailText) e.detail := by
  unfold detailText detail
  split_ifs
  · exact readsMember_natText (by decide) _
  · refine readsMember_memberText (by decide) (reads_objectText
      [(memberText "bytes" (natText e.counter.toNat), _),
        (memberText "value" (natText e.counter.toNat), _)] (by simp) ?_)
    simp only [List.forall_mem_cons]
    exact ⟨readsMember_natText (by decide) _, readsMember_natText (by decide) _, by simp⟩

/-- The line of an event is read as its value. -/
theorem Event.reads_line {e : Event} (he : e.IsRecorded)
    (hname : IsShown (Telemetry.cString e.name))
    (hcategory : IsShown (Telemetry.cString e.category)) :
    Reads 3 (codes e.line) e.value := by
  have hphase := needsNoEscape_phase he
  have hquoted : [34, e.phase, 34] = quoted [e.phase] := hphase.quoted_eq.symm
  rw [Event.line_eq, hquoted]
  exact Profiler.reads_line [(memberText "name" (quoted (Telemetry.cString e.name)), _),
      (memberText "cat" (quoted (Telemetry.cString e.category)), _),
      (memberText "ph" (quoted [e.phase]), _), (memberText "ts" (natText e.tsUs.toNat), _),
      (memberText "pid" (ascii "1"), _), (memberText "tid" (natText e.tid.toNat), _),
      (e.detailText, _)]
    (by simp) (by
      simp only [List.forall_mem_cons]
      exact ⟨readsMember_quoted (by decide) hname, readsMember_quoted (by decide) hcategory,
        readsMember_quoted (by decide) hphase.isShown, readsMember_natText (by decide) _,
        readsMember_one (by decide), readsMember_natText (by decide) _, e.reads_detail, by simp⟩)

/-- The line of an event with a text that is not shown is not read. -/
theorem Event.fails_line {e : Event} (hname : IsAsciiText (Telemetry.cString e.name))
    (hcategory : IsAsciiText (Telemetry.cString e.category))
    (hraw : ¬ (Escapable (Telemetry.cString e.name) ∧ Escapable (Telemetry.cString e.category))) :
    Fails 3 (codes e.line) := by
  rw [Event.line_eq, codes_append]
  refine Fails.white ?_ isWhite_indent
  by_cases hescapable : Escapable (Telemetry.cString e.name)
  · have hfails := fails_quoted hcategory fun hother ↦ hraw ⟨hescapable, hother⟩
    exact fails_objectText [(memberText "name" (quoted (Telemetry.cString e.name)), _)] _
      (by simpa using readsMember_quoted (by decide) ⟨hname, hescapable⟩)
      (failsMember_memberText (by decide) (hfails.mono (Nat.le_succ 1)))
  · have hfails := fails_quoted hname hescapable
    exact fails_objectText [] _ (by simp)
      (failsMember_memberText (by decide) (hfails.mono (Nat.le_succ 1)))

theorem reads_threadLine (tid : UInt32) : Reads 3 (codes (threadLine tid)) (threadValue tid) := by
  have hworker := needsNoEscape_worker tid
  have hargs : ReadsMember 2 (codes (memberText "args" (objectText
      [memberText "name" (quoted (ascii "worker-" ++ natText tid.toNat))])))
      (named "args" (.object
        [named "name" (.string (codes (ascii "worker-" ++ natText tid.toNat)))])) := by
    refine readsMember_memberText (by decide) (reads_objectText
      [(memberText "name" (quoted (ascii "worker-" ++ natText tid.toNat)), _)]
      (by simp) ?_)
    simp only [List.forall_mem_cons]
    exact ⟨readsMember_memberText (by decide) (reads_quoted hworker.isShown), by simp⟩
  rw [threadLine_eq, ← hworker.quoted_eq]
  exact Profiler.reads_line [(memberText "name" (quoted (ascii "thread_name")), _),
      (memberText "ph" (quoted (ascii "M")), _), (memberText "pid" (ascii "1"), _),
      (memberText "tid" (natText tid.toNat), _), (_, _)]
    (by simp) (by
      simp only [List.forall_mem_cons]
      exact ⟨readsMember_quoted (by decide) (by decide), readsMember_quoted (by decide) (by decide),
        readsMember_one (by decide), readsMember_natText (by decide) _, hargs, by simp⟩)

theorem reads_counterLine {name category : Text} (hname : NeedsNoEscape name)
    (hcategory : NeedsNoEscape category) (endTs value : UInt64) :
    Reads 3 (codes (counterLine name category endTs value))
      (counterValue name category endTs value) := by
  have hargs : ReadsMember 2
      (codes (memberText "args" (objectText [memberText "value" (natText value.toNat)])))
      (named "args" (.object [named "value" (.integer value.toNat)])) := by
    refine readsMember_memberText (by decide) (reads_objectText
      [(memberText "value" (natText value.toNat), _)] (by simp) ?_)
    simp only [List.forall_mem_cons]
    exact ⟨readsMember_natText (by decide) _, by simp⟩
  rw [counterLine_eq, ← hname.quoted_eq, ← hcategory.quoted_eq]
  exact Profiler.reads_line [(memberText "name" (quoted name), _),
      (memberText "cat" (quoted category), _), (memberText "ph" (quoted (ascii "C")), _),
      (memberText "ts" (natText endTs.toNat), _), (memberText "pid" (ascii "1"), _),
      (memberText "tid" (ascii "1"), _), (_, _)]
    (by simp) (by
      simp only [List.forall_mem_cons]
      exact ⟨readsMember_quoted (by decide) hname.isShown,
        readsMember_quoted (by decide) hcategory.isShown,
        readsMember_quoted (by decide) (by decide), readsMember_natText (by decide) _,
        readsMember_one (by decide), readsMember_one (by decide), hargs, by simp⟩)

theorem reads_processLine {name label value : String} (hname : IsShown (ascii name))
    (hlabel : IsShown (ascii label)) (hvalue : IsShown (ascii value)) :
    Reads 3 (codes (processLine name label value)) (processValue name label value) := by
  have hargs : ReadsMember 2
      (codes (memberText "args" (objectText [memberText label (quoted (ascii value))])))
      (named "args" (.object [named label (.string (codes (ascii value)))])) := by
    refine readsMember_memberText (by decide) (reads_objectText
      [(memberText label (quoted (ascii value)), _)] (by simp) ?_)
    simp only [List.forall_mem_cons]
    exact ⟨readsMember_memberText hlabel (reads_quoted hvalue), by simp⟩
  exact Profiler.reads_line [(memberText "name" (quoted (ascii name)), _),
      (memberText "ph" (quoted (ascii "M")), _), (memberText "pid" (ascii "1"), _), (_, _)]
    (by simp) (by
      simp only [List.forall_mem_cons]
      exact ⟨readsMember_quoted (by decide) hname, readsMember_quoted (by decide) (by decide),
        readsMember_one (by decide), hargs, by simp⟩)

/-! ### The document -/

/-- The text of a document with the given lines. -/
def documentText (lines : List Text) : Text :=
  123 :: (ascii "\n  " ++ List.intercalate (44 :: ascii "\n  ")
    [memberText "displayTimeUnit" (32 :: quoted (ascii "us")),
      memberText "traceEvents" (32 :: 91 :: (ascii "\n" ++
        List.intercalate (44 :: ascii "\n") lines ++ ascii "\n  " ++ [93]))] ++ ascii "\n" ++ [125])

theorem chromeTrace_eq_documentText (p : Profiler Thread) (nowUs : UInt64) :
    p.chromeTrace nowUs = documentText (p.traceLines nowUs) ++ ascii "\n" := by
  have hstart : ascii "\x7b\n  \"displayTimeUnit\": \"us\",\n  \"traceEvents\": [\n" =
      123 :: (ascii "\n  " ++ (memberText "displayTimeUnit" (32 :: quoted (ascii "us")) ++
        44 :: (ascii "\n  " ++ (nameText "traceEvents" ++ 58 :: 32 :: 91 :: ascii "\n")))) := by
    decide
  have hend : ascii "\n  ]\n\x7d\n" =
      ascii "\n  " ++ 93 :: (ascii "\n" ++ 125 :: ascii "\n") := by decide
  have hcomma : ascii ",\n" = 44 :: ascii "\n" := by decide
  rw [chromeTrace_eq, hstart, hend, hcomma, documentText]
  simp only [memberText, List.intercalate_cons_cons, List.intercalate_singleton,
    List.append_assoc, List.cons_append, List.nil_append]

theorem codes_documentText (lines : List Text) : codes (documentText lines) =
    123 :: (codes (ascii "\n  ") ++ List.intercalate (44 :: codes (ascii "\n  "))
      [codes (memberText "displayTimeUnit" (32 :: quoted (ascii "us"))),
        codes (memberText "traceEvents" (32 :: 91 :: (ascii "\n" ++
          List.intercalate (44 :: ascii "\n") lines ++ ascii "\n  " ++ [93])))] ++
      codes (ascii "\n") ++ [125]) := by
  have hmembers := codes_intercalate (44 :: ascii "\n  ")
    [memberText "displayTimeUnit" (32 :: quoted (ascii "us")),
      memberText "traceEvents" (32 :: 91 :: (ascii "\n" ++
        List.intercalate (44 :: ascii "\n") lines ++ ascii "\n  " ++ [93]))]
  rw [documentText, show ∀ (c : UInt8) (text : Text), codes (c :: text) = c.toNat :: codes text from
    fun _ _ ↦ rfl, codes_append, codes_append, codes_append, hmembers]
  rfl

/-- The text of the array of the events. -/
theorem codes_array (lines : List Text) : codes (32 :: 91 :: (ascii "\n" ++
      List.intercalate (44 :: ascii "\n") lines ++ ascii "\n  " ++ [93])) =
    [32] ++ 91 :: (codes (ascii "\n") ++
      List.intercalate (44 :: codes (ascii "\n")) (lines.map codes) ++ codes (ascii "\n  ") ++
        [93]) := by
  have hlines := codes_intercalate (44 :: ascii "\n") lines
  rw [show ∀ (c d : UInt8) (text : Text), codes (c :: d :: text) =
    [c.toNat] ++ d.toNat :: codes text from fun _ _ _ ↦ rfl, codes_append, codes_append,
    codes_append, hlines]
  rfl

theorem readsMember_displayTimeUnit : ReadsMember 4
    (codes (memberText "displayTimeUnit" (32 :: quoted (ascii "us"))))
    (named "displayTimeUnit" (.string (codes (ascii "us")))) := by
  refine readsMember_memberText (by decide) ?_
  have hus := (reads_quoted (show IsShown (ascii "us") by decide)).white Nat.one_ne_zero
    (show IsWhite [32] by decide)
  exact hus.mono (by decide)

/-- A document whose lines are read is read. -/
theorem reads_documentText (lines : List (Text × Json)) (hne : lines ≠ [])
    (hlines : ∀ entry ∈ lines, Reads 3 (codes entry.1) entry.2) :
    Reads 5 (codes (documentText (lines.map Prod.fst)))
      (.object [named "displayTimeUnit" (.string (codes (ascii "us"))),
        named "traceEvents" (.array (lines.map Prod.snd))]) := by
  have harray := reads_array (show IsWhite (codes (ascii "\n")) by decide)
    (show IsWhite (codes (ascii "\n  ")) by decide)
    (lines.map fun entry ↦ (codes entry.1, entry.2)) (by simpa using hne) (by
      intro entry hentry
      obtain ⟨source, hsource, rfl⟩ := List.mem_map.mp hentry
      exact hlines source hsource) (by decide)
  have hfst : (lines.map fun entry ↦ (codes entry.1, entry.2)).map Prod.fst =
      (lines.map Prod.fst).map codes := by simp
  have hsnd : (lines.map fun entry ↦ (codes entry.1, entry.2)).map Prod.snd =
      lines.map Prod.snd := by simp
  rw [hfst, hsnd] at harray
  have hevents := harray.white (by decide) (show IsWhite [32] by decide)
  rw [← codes_array] at hevents
  rw [codes_documentText]
  exact reads_object (by decide) (by decide) [(_, _), (_, _)] (by simp) (by
    simp only [List.forall_mem_cons]
    exact ⟨readsMember_displayTimeUnit, readsMember_memberText (by decide) hevents, by simp⟩)

/-- A document with a line that is not read is not read. -/
theorem fails_documentText (good : List (Text × Json)) (hne : good ≠ []) {bad : Text}
    (others : List Text) (hgood : ∀ entry ∈ good, Reads 3 (codes entry.1) entry.2)
    (hbad : Fails 3 (codes bad)) :
    Fails 5 (codes (documentText (good.map Prod.fst ++ bad :: others))) := by
  have harray := fails_array (show IsWhite (codes (ascii "\n")) by decide)
    (good.map fun entry ↦ (codes entry.1, entry.2)) (others.map codes)
    (by simpa using hne) (by
      intro entry hentry
      obtain ⟨source, hsource, rfl⟩ := List.mem_map.mp hentry
      exact hgood source hsource) (by decide) hbad (codes (ascii "\n  ") ++ [93])
  have hmap : (good.map fun entry ↦ (codes entry.1, entry.2)).map Prod.fst ++
      codes bad :: others.map codes = (good.map Prod.fst ++ bad :: others).map codes := by simp
  rw [hmap, ← List.append_assoc] at harray
  have hevents := harray.white (show IsWhite [32] by decide)
  rw [← codes_array] at hevents
  rw [codes_documentText, List.append_assoc]
  exact fails_object (by decide) [(_, _)] []
    (List.forall_mem_singleton.mpr readsMember_displayTimeUnit)
    (failsMember_memberText (by decide) hevents) rfl _

/-! ### After any calls -/

variable [DecidableEq Thread]

/-- The events of the table are spans and counters. -/
def Phased (p : Profiler Thread) : Prop := ∀ slot < p.eventCount, (p.events slot).IsRecorded

omit [DecidableEq Thread] in
/-- After one more event there are no other slots than the one it took. -/
theorem lt_eventCount_succ {p next : Profiler Thread} (hwrite : next.write = p.write + 1) {slot : ℕ}
    (hslot : slot < next.eventCount) :
    slot < p.eventCount ∨ p.write < kCapacity ∧ slot = p.write.toNat := by
  unfold eventCount kCapacity at *
  rw [hwrite] at hslot
  simp only [UInt64.lt_iff_toNat_lt, UInt64.toNat_add, UInt64.reduceToNat] at hslot ⊢
  split_ifs at hslot ⊢ <;> omega

theorem Phased.record {p : Profiler Thread} (hphased : p.Phased) (thread : Thread)
    (name category : Option Text) {phase : UInt8} (tsUs durUs counter : UInt64)
    (hphase : phase = spanPhase ∨ phase = counterPhase) :
    (p.record thread name category phase tsUs durUs counter).Phased := by
  intro slot hslot
  have hwrite : (p.record thread name category phase tsUs durUs counter).write = p.write + 1 := by
    unfold Profiler.record
    dsimp only
    split_ifs
    · rfl
    · exact write_store ..
  have hcases := lt_eventCount_succ hwrite hslot
  by_cases hfull : kCapacity ≤ p.write
  · have hrecord : p.record thread name category phase tsUs durUs counter =
        { p with write := p.write + 1, dropped := p.dropped + 1 } := if_pos hfull
    rw [hrecord]
    rcases hcases with hold | ⟨hroom, -⟩
    · exact hphased slot hold
    · exact absurd hfull (UInt64.not_le.mpr hroom)
  · have hrecord : p.record thread name category phase tsUs durUs counter =
        store { p with write := p.write + 1 } p.write.toNat thread name category phase tsUs durUs
          counter := if_neg hfull
    rw [hrecord]
    dsimp only [store]
    by_cases hnew : slot = p.write.toNat
    · rw [hnew, Function.update_self]
      exact hphase
    · rw [Function.update_of_ne hnew]
      exact hphased slot (hcases.resolve_right fun hslot ↦ hnew hslot.2)

theorem Phased.call {p : Profiler Thread} (hphased : p.Phased) (call : ProfilerCall Thread) :
    (p.call call).Phased := by
  cases call with
  | recordSpan thread name category startUs endUs => exact hphased.record _ _ _ _ _ _ (.inl rfl)
  | recordAllocator thread name bytes nowUs => exact hphased.record _ _ _ _ _ _ (.inr rfl)
  | recordCacheSample hit =>
    simp only [Profiler.call, recordCacheSample]
    split_ifs <;> exact hphased
  | beginFrame nowUs => exact hphased
  | endFrame thread nowUs =>
    have hframe : Phased { p with lastFrameUs := duration p.frameStartUs nowUs } := hphased
    exact hframe.record _ _ _ _ _ _ (.inl rfl)
  | reset => exact fun slot hslot ↦ absurd hslot (Nat.not_lt_zero slot)

/-- All events of the table are spans and counters. -/
theorem phased_run (calls : List (ProfilerCall Thread)) : (run calls).Phased :=
  List.foldlRecOn calls Profiler.call (fun slot hslot ↦ absurd hslot (Nat.not_lt_zero slot))
    fun _ hphased call _ ↦ hphased.call call

/-! ### What a reader finds -/

/-- The name and the category of an event may stand in a trace. -/
def Event.IsReadable (e : Event) : Prop :=
  Escapable (Telemetry.cString e.name) ∧ Escapable (Telemetry.cString e.category)

instance (e : Event) : Decidable e.IsReadable := inferInstanceAs (Decidable (_ ∧ _))

/-- The bytes of the name and of the category of an event are ASCII. -/
def Event.IsAscii (e : Event) : Prop :=
  IsAsciiText (Telemetry.cString e.name) ∧ IsAsciiText (Telemetry.cString e.category)

/-- The lines of a trace before those of the events, with their values. -/
def headEntries (p : Profiler Thread) : List (Text × Json) :=
  [(processLine "process_name" "name" "eoc", processValue "process_name" "name" "eoc"),
    (processLine "process_labels" "labels" "engineoptimizationcore",
      processValue "process_labels" "labels" "engineoptimizationcore")] ++
  p.threadIdsShown.map fun tid ↦ (threadLine tid, threadValue tid)

/-- The lines of a trace after those of the events, with their values. -/
def counterEntries (p : Profiler Thread) (nowUs : UInt64) : List (Text × Json) :=
  [(counterLine (ascii "cache_hits") (ascii "cache") (p.endTs nowUs) p.cacheHits,
      counterValue (ascii "cache_hits") (ascii "cache") (p.endTs nowUs) p.cacheHits),
    (counterLine (ascii "cache_misses") (ascii "cache") (p.endTs nowUs) p.cacheMisses,
      counterValue (ascii "cache_misses") (ascii "cache") (p.endTs nowUs) p.cacheMisses),
    (counterLine (ascii "trace_dropped") (ascii "profiler") (p.endTs nowUs) p.dropped,
      counterValue (ascii "trace_dropped") (ascii "profiler") (p.endTs nowUs) p.dropped)]

omit [DecidableEq Thread] in
theorem reads_headEntries (p : Profiler Thread) :
    ∀ entry ∈ p.headEntries, Reads 3 (codes entry.1) entry.2 := by
  intro entry hentry
  simp only [headEntries, List.mem_append, List.mem_cons, List.not_mem_nil, or_false,
    List.mem_map] at hentry
  rcases hentry with (rfl | rfl) | ⟨tid, -, rfl⟩
  · exact reads_processLine (by decide) (by decide) (by decide)
  · exact reads_processLine (by decide) (by decide) (by decide)
  · exact reads_threadLine tid

omit [DecidableEq Thread] in
theorem reads_counterEntries (p : Profiler Thread) (nowUs : UInt64) :
    ∀ entry ∈ p.counterEntries nowUs, Reads 3 (codes entry.1) entry.2 := by
  intro entry hentry
  simp only [counterEntries, List.mem_cons, List.not_mem_nil, or_false] at hentry
  rcases hentry with rfl | rfl | rfl <;> exact reads_counterLine (by decide) (by decide) _ _

/-- The events of a table are read if all of them may stand in a trace. -/
theorem reads_events {events : List Event} (hevents : ∀ e ∈ events, e.IsRecorded ∧ e.IsAscii)
    (hreadable : ∀ e ∈ events, e.IsReadable) :
    ∀ entry ∈ events.map fun e ↦ (e.line, e.value), Reads 3 (codes entry.1) entry.2 := by
  intro entry hentry
  obtain ⟨e, he, rfl⟩ := List.mem_map.mp hentry
  obtain ⟨hrecorded, hname, hcategory⟩ := hevents e he
  exact e.reads_line hrecorded ⟨hname, (hreadable e he).1⟩ ⟨hcategory, (hreadable e he).2⟩

omit [DecidableEq Thread] in
/-- A trace of ASCII texts is read exactly if all events may stand in it. -/
theorem readDocument_chromeTrace {p : Profiler Thread} (nowUs : UInt64)
    (hevents : ∀ e ∈ p.recordedEvents, e.IsRecorded ∧ e.IsAscii) :
    readDocument (codes (p.chromeTrace nowUs)) =
      if ∀ e ∈ p.recordedEvents, e.IsReadable then some (p.traceValue nowUs) else none := by
  have hlength : ∀ lines, 5 ≤ (codes (documentText lines)).length := by
    intro lines
    have hindent : (ascii "\n  ").length = 3 := by decide
    simp [codes, documentText, hindent]
    omega
  rw [chromeTrace_eq_documentText, codes_append]
  split_ifs with hreadable
  · have hread := reads_documentText
      (p.headEntries ++ p.recordedEvents.map (fun e ↦ (e.line, e.value)) ++
        p.counterEntries nowUs) (by simp [headEntries]) (by
        intro entry hentry
        rcases List.mem_append.mp hentry with hentry | hcounter
        · rcases List.mem_append.mp hentry with hhead | hevent
          · exact p.reads_headEntries entry hhead
          · exact reads_events hevents hreadable entry hevent
        · exact p.reads_counterEntries nowUs entry hcounter)
    have hfst : (p.headEntries ++ p.recordedEvents.map (fun e ↦ (e.line, e.value)) ++
        p.counterEntries nowUs).map Prod.fst = p.traceLines nowUs := by
      simp [headEntries, counterEntries, traceLines, Function.comp_def]
    have hsnd : (p.headEntries ++ p.recordedEvents.map (fun e ↦ (e.line, e.value)) ++
        p.counterEntries nowUs).map Prod.snd = p.traceEvents nowUs := by
      simp [headEntries, counterEntries, traceEvents, Function.comp_def]
    rw [hfst, hsnd] at hread
    exact readDocument_of_reads hread (hlength _) (by decide)
  · -- The first event that may not stand in the trace is where the reader stops.
    obtain ⟨bad, hfind⟩ : ∃ bad, p.recordedEvents.find? (fun e ↦ ¬ e.IsReadable) = some bad := by
      rw [← Option.isSome_iff_exists, List.find?_isSome]
      simpa using hreadable
    obtain ⟨hbad, before, after, hsplit, hbefore⟩ := List.find?_eq_some_iff_append.mp hfind
    have hmem : ∀ e ∈ before ++ [bad], e ∈ p.recordedEvents := by
      intro e he
      rw [hsplit]
      simp only [List.mem_append, List.mem_cons] at he ⊢
      tauto
    obtain ⟨-, hname, hcategory⟩ := hevents bad (hmem bad (by simp))
    have hfails := fails_documentText
      (p.headEntries ++ before.map fun e ↦ (e.line, e.value)) (by simp [headEntries])
      (after.map Event.line ++ (p.counterEntries nowUs).map Prod.fst) (by
        intro entry hentry
        rcases List.mem_append.mp hentry with hhead | hevent
        · exact p.reads_headEntries entry hhead
        · exact reads_events (fun e he ↦ hevents e (hmem e (by simp [he])))
            (fun e he ↦ by simpa using hbefore e he) entry hevent)
      (bad.fails_line hname hcategory (of_decide_eq_true hbad))
    have hlines : (p.headEntries ++ before.map fun e ↦ (e.line, e.value)).map Prod.fst ++
        bad.line :: (after.map Event.line ++ (p.counterEntries nowUs).map Prod.fst) =
          p.traceLines nowUs := by
      simp [headEntries, counterEntries, traceLines, hsplit, Function.comp_def]
    rw [hlines] at hfails
    exact readDocument_of_fails hfails (hlength _) _

/-- The events of the table after any calls. -/
theorem recorded_run (calls : List (ProfilerCall Thread)) (hascii : ∀ call ∈ calls, call.IsAscii) :
    ∀ e ∈ (run calls).recordedEvents, e.IsRecorded ∧ e.IsAscii := by
  have hkeeps := keeps_run calls
  have hrecorded := Recorded.isAscii_of hascii
  intro e he
  obtain ⟨slot, hslot, rfl⟩ := List.mem_map.mp he
  refine ⟨phased_run calls slot (List.mem_range.mp hslot), ?_, ?_⟩
  · rw [(hkeeps.texts_eq slot).1]
    exact fun byte hbyte ↦ (hrecorded slot).1 byte (List.mem_of_mem_take hbyte)
  · rw [(hkeeps.texts_eq slot).2]
    exact fun byte hbyte ↦ (hrecorded slot).2 byte (List.mem_of_mem_take hbyte)

/-- Which events may stand in a trace, by what the calls have recorded. -/
theorem isReadable_run (calls : List (ProfilerCall Thread)) :
    (∀ e ∈ (run calls).recordedEvents, e.IsReadable) ↔
      ∀ slot < (Recorded.of calls).count, Escapable ((Recorded.of calls).keptName slot) ∧
        Escapable ((Recorded.of calls).keptCategory slot) := by
  have hkeeps := keeps_run calls
  simp only [recordedEvents, List.forall_mem_map, List.mem_range, hkeeps.eventCount_eq]
  refine forall_congr' fun slot ↦ imp_congr_right fun _ ↦ ?_
  rw [Event.IsReadable, (hkeeps.texts_eq slot).1, (hkeeps.texts_eq slot).2]

end Profiler

end GameEngine.Core
