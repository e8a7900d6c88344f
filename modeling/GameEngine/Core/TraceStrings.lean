import GameEngine.Core.Profiler
import GameEngine.Library.JsonString
import Mathlib.Data.List.Infix

/-!
# The strings of a trace

Every event of a trace has its name and its category between quotation marks. `json_escape` escapes
the quotation mark, the backslash and the newline, and copies all other bytes, so that the other
control characters end up in the string as they are, where JSON does not allow them.

`Recorded` says which call has written each slot of the table. `trace_strings` says that all names
and categories of a trace are strings of JSON that stand for the recorded texts, cut to the arrays,
exactly when no control character but the newline is in the parts that are kept.
`trace_strings_fails` is a name with a tab. ASCII bytes are their own code points.
-/

set_option autoImplicit false
set_option relaxedAutoImplicit false

namespace GameEngine.Core

open GameEngine.Library

/-! ### Escaping -/

/-- The code points of an ASCII text. -/
def codes (text : Text) : List ℕ := text.map UInt8.toNat

/-- What stands in a trace for a text, with the quotation marks. -/
def quoted (text : Text) : Text := 34 :: jsonEscape text ++ [34]

/-- The literal is a string of JSON, and what it stands for is the text. -/
def ReadsAs (literal text : Text) : Prop :=
  ∀ value, JsonString (codes literal) value ↔ value = codes text

/-- No byte is a control character, except for newlines. -/
def Escapable (text : Text) : Prop := ∀ byte ∈ text, 32 ≤ byte ∨ byte = 10

instance (text : Text) : Decidable (Escapable text) :=
  decidable_of_iff (text.all fun byte ↦ 32 ≤ byte ∨ byte = 10) (by simp [Escapable])

/-- All bytes are ASCII. -/
def IsAsciiText (text : Text) : Prop := ∀ byte ∈ text, byte < 128

instance (text : Text) : Decidable (IsAsciiText text) :=
  decidable_of_iff (text.all (· < 128)) (by simp [IsAsciiText])

theorem jsonString_quoted {text : Text} {value : List ℕ} :
    JsonString (codes (quoted text)) value ↔ JsonChars (codes (jsonEscape text)) value := by
  have hquoted : codes (quoted text) =
      quotationMark :: codes (jsonEscape text) ++ [quotationMark] := by
    simp [codes, quoted, quotationMark]
  rw [hquoted, jsonString_iff]

/-- Escaped, a text without control characters other than newlines stands for itself. -/
theorem jsonChars_jsonEscape {text : Text} (hascii : IsAsciiText text)
    (hescapable : Escapable text) : JsonChars (codes (jsonEscape text)) (codes text) := by
  induction text with
  | nil => exact .nil
  | cons byte rest ih =>
    have hrest := ih (fun other hother ↦ hascii other (List.mem_cons_of_mem _ hother))
      fun other hother ↦ hescapable other (List.mem_cons_of_mem _ hother)
    by_cases hbackslash : byte = 92
    · subst hbackslash
      exact .escape rfl hrest
    by_cases hquote : byte = 34
    · subst hquote
      exact .escape rfl hrest
    by_cases hnewline : byte = 10
    · subst hnewline
      exact .escape rfl hrest
    · have hescape : jsonEscape (byte :: rest) = byte :: jsonEscape rest := by
        simp [jsonEscape, hbackslash, hquote, hnewline]
      have hbyte : byte.toNat < 128 := hascii byte List.mem_cons_self
      have hspace : 32 ≤ byte.toNat :=
        (hescapable byte List.mem_cons_self).resolve_right hnewline
      have hunits : utf16 byte.toNat = [byte.toNat] := if_pos (by omega)
      have hself : IsUnescaped byte.toNat :=
        ⟨hspace, fun heq ↦ hquote (UInt8.toNat_inj.mp heq),
          fun heq ↦ hbackslash (UInt8.toNat_inj.mp heq), by omega⟩
      have hchars := JsonChars.unescaped hself hrest
      rw [hunits] at hchars
      rw [hescape]
      exact hchars

/-- A control character that is no newline is copied. -/
theorem mem_jsonEscape {text : Text} {byte : UInt8} (hmem : byte ∈ text) (hcontrol : byte < 32)
    (hnewline : byte ≠ 10) : byte ∈ jsonEscape text := by
  have hquote : byte ≠ 34 := by
    rintro rfl
    exact absurd hcontrol (by decide)
  have hbackslash : byte ≠ 92 := by
    rintro rfl
    exact absurd hcontrol (by decide)
  exact List.mem_flatMap.mpr ⟨byte, hmem, by simp [hquote, hbackslash, hnewline]⟩

/-- A text whose literal is a string of JSON is escapable. -/
theorem escapable_of_jsonString {text : Text} {value : List ℕ}
    (hstring : JsonString (codes (quoted text)) value) : Escapable text := by
  intro byte hmem
  by_contra hraw
  obtain ⟨hcontrol, hnewline⟩ := not_or.mp hraw
  have hcopied := mem_jsonEscape hmem (UInt8.not_le.mp hcontrol) hnewline
  have hspace := (jsonString_quoted.mp hstring).not_control byte.toNat
    (List.mem_map_of_mem hcopied)
  exact hcontrol hspace

/-- An ASCII text is read back from its literal exactly if it is escapable. -/
theorem readsAs_quoted {text : Text} (hascii : IsAsciiText text) :
    ReadsAs (quoted text) text ↔ Escapable text := by
  constructor
  · intro hreads
    exact escapable_of_jsonString ((hreads _).mpr rfl)
  · intro hescapable value
    have hchars := jsonChars_jsonEscape hascii hescapable
    rw [jsonString_quoted]
    constructor
    · exact fun hvalue ↦ hvalue.unique hchars
    · rintro rfl
      exact hchars

/-! ### What was recorded -/

/-- The name and the category of the call that was the last to write each slot. -/
structure Recorded where
  write : UInt64
  texts : ℕ → Text × Text

namespace Recorded

/-- An event takes the next slot, unless the table is full. -/
def add (r : Recorded) (name category : Option Text) : Recorded where
  write := r.write + 1
  texts :=
    if Profiler.kCapacity ≤ r.write then r.texts
    else Function.update r.texts r.write.toNat
      (Telemetry.cString (name.getD []), Telemetry.cString (category.getD []))

/-- One call. -/
def call {Thread : Type} (r : Recorded) : ProfilerCall Thread → Recorded
  | .recordSpan _ name category _ _ => r.add name category
  | .recordAllocator _ name _ _ => r.add name (some (ascii "memory"))
  | .recordCacheSample _ => r
  | .beginFrame _ => r
  | .endFrame _ _ => r.add (some (ascii "frame")) (some (ascii "cpu"))
  | .reset => { r with write := 0 }

/-- What some calls have recorded. -/
def of {Thread : Type} (calls : List (ProfilerCall Thread)) : Recorded :=
  calls.foldl call ⟨0, fun _ ↦ ([], [])⟩

/-- The number of slots that have been written since the last reset. -/
def count (r : Recorded) : ℕ :=
  if r.write < Profiler.kCapacity then r.write.toNat else Profiler.kCapacity.toNat

/-- The recorded name, cut to the array of an event. -/
def keptName (r : Recorded) (slot : ℕ) : Text := (r.texts slot).1.take (Profiler.nameBytes - 1)

/-- The recorded category, cut to the array of an event. -/
def keptCategory (r : Recorded) (slot : ℕ) : Text :=
  (r.texts slot).2.take (Profiler.categoryBytes - 1)

end Recorded

namespace Profiler

/-- What the line of an event has for its name. -/
def Event.nameLiteral (e : Event) : Text := quoted (Telemetry.cString e.name)

/-- What the line of an event has for its category. -/
def Event.categoryLiteral (e : Event) : Text := quoted (Telemetry.cString e.category)

variable {Thread : Type} {p : Profiler Thread} {r : Recorded}

/-- Every event has the kept part of what was recorded in its slot. -/
structure Keeps (p : Profiler Thread) (r : Recorded) : Prop where
  write_eq : p.write = r.write
  texts_eq : ∀ slot, Telemetry.cString (p.events slot).name = r.keptName slot ∧
    Telemetry.cString (p.events slot).category = r.keptCategory slot

theorem Keeps.eventCount_eq (hkeeps : p.Keeps r) : p.eventCount = r.count := by
  rw [eventCount, Recorded.count, hkeeps.write_eq]

theorem keeps_new : (new : Profiler Thread).Keeps ⟨0, fun _ ↦ ([], [])⟩ where
  write_eq := rfl
  texts_eq := fun _ ↦ ⟨rfl, rfl⟩

variable [DecidableEq Thread]

theorem write_store (p : Profiler Thread) (slot : ℕ) (thread : Thread) (name category : Option Text)
    (phase : UInt8) (tsUs durUs counter : UInt64) :
    (p.store slot thread name category phase tsUs durUs counter).write = p.write := by
  unfold store threadId
  cases p.threadIds thread <;> rfl

/-- A stored event is read back, and the others stay as they are. -/
theorem texts_store {p : Profiler Thread} (slot : ℕ) (thread : Thread) (name category : Option Text)
    (phase : UInt8) (tsUs durUs counter : UInt64) (other : ℕ) :
    ((p.store slot thread name category phase tsUs durUs counter).events other).name =
        (if other = slot then copyCstr (p.events slot).name name else (p.events other).name) ∧
      ((p.store slot thread name category phase tsUs durUs counter).events other).category =
        if other = slot then copyCstr (p.events slot).category category
        else (p.events other).category := by
  dsimp only [store]
  split_ifs with hother
  · subst hother
    rw [Function.update_self]
    exact ⟨rfl, rfl⟩
  · rw [Function.update_of_ne hother]
    exact ⟨rfl, rfl⟩

/-- An event is recorded. -/
theorem Keeps.record (hkeeps : p.Keeps r) (thread : Thread) (name category : Option Text)
    (phase : UInt8) (tsUs durUs counter : UInt64) :
    (p.record thread name category phase tsUs durUs counter).Keeps (r.add name category) := by
  have hwrite := hkeeps.write_eq
  by_cases hfull : kCapacity ≤ p.write
  · have hrecord : p.record thread name category phase tsUs durUs counter =
        { p with write := p.write + 1, dropped := p.dropped + 1 } := if_pos hfull
    have hadd : (r.add name category).texts = r.texts := if_pos (hwrite ▸ hfull)
    rw [hrecord]
    refine ⟨congrArg (· + 1) hwrite, fun slot ↦ ?_⟩
    rw [Recorded.keptName, Recorded.keptCategory, hadd]
    exact hkeeps.texts_eq slot
  · have hrecord : p.record thread name category phase tsUs durUs counter =
        store { p with write := p.write + 1 } p.write.toNat thread name category phase tsUs durUs
          counter := if_neg hfull
    have hadd : (r.add name category).texts = Function.update r.texts p.write.toNat
        (Telemetry.cString (name.getD []), Telemetry.cString (category.getD [])) := by
      rw [hwrite]
      exact if_neg (hwrite ▸ hfull)
    rw [hrecord]
    refine ⟨(write_store ..).trans (congrArg (· + 1) hwrite), fun slot ↦ ?_⟩
    obtain ⟨hname, hcategory⟩ := texts_store p.write.toNat thread name category phase tsUs durUs
      counter slot
    rw [Recorded.keptName, Recorded.keptCategory, hadd, hname, hcategory]
    by_cases hslot : slot = p.write.toNat
    · rw [if_pos hslot, if_pos hslot, hslot, Function.update_self]
      exact ⟨cString_copyCstr (p.events p.write.toNat).length_name name,
        cString_copyCstr (p.events p.write.toNat).length_category category⟩
    · rw [if_neg hslot, if_neg hslot, Function.update_of_ne hslot]
      exact hkeeps.texts_eq slot

/-- Every call keeps what it records. -/
theorem Keeps.call (hkeeps : p.Keeps r) (call : ProfilerCall Thread) :
    (p.call call).Keeps (r.call call) := by
  cases call with
  | recordSpan thread name category startUs endUs => exact hkeeps.record ..
  | recordAllocator thread name bytes nowUs => exact hkeeps.record ..
  | recordCacheSample hit =>
    simp only [Profiler.call, recordCacheSample]
    split_ifs <;> exact ⟨hkeeps.write_eq, hkeeps.texts_eq⟩
  | beginFrame nowUs => exact ⟨hkeeps.write_eq, hkeeps.texts_eq⟩
  | endFrame thread nowUs =>
    have hframe : Keeps { p with lastFrameUs := duration p.frameStartUs nowUs } r :=
      ⟨hkeeps.write_eq, hkeeps.texts_eq⟩
    exact hframe.record ..
  | reset => exact ⟨rfl, hkeeps.texts_eq⟩

/-- The events have the kept parts of what the calls have recorded. -/
theorem keeps_run (calls : List (ProfilerCall Thread)) : (run calls).Keeps (Recorded.of calls) := by
  have hrest : ∀ (rest : List (ProfilerCall Thread)) (p : Profiler Thread) (r : Recorded),
      p.Keeps r → (rest.foldl Profiler.call p).Keeps (rest.foldl Recorded.call r) := by
    intro rest
    induction rest with
    | nil => exact fun _ _ hkeeps ↦ hkeeps
    | cons call rest ih => exact fun p r hkeeps ↦ ih _ _ (hkeeps.call call)
  exact hrest calls new _ keeps_new

/-! ### What is written -/

omit [DecidableEq Thread] in
theorem prefix_emit (out : Text × Bool) (line : Text) : out.1 <+: (emit out line).1 := by
  unfold emit
  split_ifs
  · exact List.prefix_append ..
  · rw [List.append_assoc]
    exact List.prefix_append ..

omit [DecidableEq Thread] in
theorem prefix_foldl_emit (lines : List Text) (out : Text × Bool) :
    out.1 <+: (lines.foldl emit out).1 := by
  induction lines generalizing out with
  | nil => exact List.prefix_rfl
  | cons line rest ih => exact (prefix_emit out line).trans (ih _)

omit [DecidableEq Thread] in
/-- Every line is written. -/
theorem infix_foldl_emit {lines : List Text} {line : Text} (hline : line ∈ lines)
    (out : Text × Bool) : line <:+: (lines.foldl emit out).1 := by
  induction lines generalizing out with
  | nil => exact absurd hline List.not_mem_nil
  | cons head rest ih =>
    rcases List.mem_cons.mp hline with rfl | hrest
    · have hsuffix : line <:+ (emit out line).1 := List.suffix_append ..
      exact hsuffix.isInfix.trans (prefix_foldl_emit rest _).isInfix
    · exact ih hrest _

/-- The members of an event that its line starts with. -/
def Event.texts (e : Event) : Text :=
  ascii "\x7b\"name\":" ++ e.nameLiteral ++ ascii ",\"cat\":" ++ e.categoryLiteral

theorem Event.texts_infix_line (e : Event) : e.texts <:+: e.line := by
  have hname : ascii "    \x7b\"name\":\"" = ascii "    " ++ (ascii "\x7b\"name\":" ++ [34]) := by
    decide
  have hcat : ascii "\",\"cat\":\"" = [34] ++ (ascii ",\"cat\":" ++ [34]) := by decide
  have hphase : ascii "\",\"ph\":\"" = [34] ++ ascii ",\"ph\":\"" := by decide
  have hline : ∃ rest, e.line = ascii "    " ++ (e.texts ++ rest) := by
    rw [Event.line, hname, hcat, hphase]
    simp only [Event.texts, Event.nameLiteral, Event.categoryLiteral, quoted, List.append_assoc,
      List.cons_append, List.nil_append]
    exact ⟨_, rfl⟩
  obtain ⟨rest, hline⟩ := hline
  rw [hline]
  exact List.infix_append' ..

omit [DecidableEq Thread] in
/-- The lines of the events are followed by those of three counters and the end of the trace. -/
theorem events_prefix_chromeTrace (p : Profiler Thread) (nowUs : UInt64) :
    ∃ out, ((((List.range p.eventCount).map p.events).map Event.line).foldl emit out).1 <+:
      p.chromeTrace nowUs := by
  unfold chromeTrace
  exact ⟨_, (((prefix_emit _ _).trans (prefix_emit _ _)).trans (prefix_emit _ _)).trans
    (List.prefix_append _ _)⟩

omit [DecidableEq Thread] in
/-- The name and the category of every event of the table are in the trace. -/
theorem texts_infix_chromeTrace (p : Profiler Thread) (nowUs : UInt64) {slot : ℕ}
    (hslot : slot < p.eventCount) : (p.events slot).texts <:+: p.chromeTrace nowUs := by
  have hline : (p.events slot).line ∈ ((List.range p.eventCount).map p.events).map Event.line :=
    List.mem_map_of_mem (List.mem_map_of_mem (List.mem_range.mpr hslot))
  obtain ⟨out, hevents⟩ := events_prefix_chromeTrace p nowUs
  exact ((Event.texts_infix_line _).trans (infix_foldl_emit hline out)).trans hevents.isInfix

end Profiler

/-! ### The strings -/

/-- The bytes of the texts that a call is given are ASCII. -/
def ProfilerCall.IsAscii {Thread : Type} : ProfilerCall Thread → Prop
  | .recordSpan _ name category _ _ => IsAsciiText (name.getD []) ∧ IsAsciiText (category.getD [])
  | .recordAllocator _ name _ _ => IsAsciiText (name.getD [])
  | _ => True

instance {Thread : Type} (call : ProfilerCall Thread) : Decidable call.IsAscii :=
  match call with
  | .recordSpan _ _ _ _ _ => inferInstanceAs (Decidable (IsAsciiText _ ∧ IsAsciiText _))
  | .recordAllocator _ _ _ _ => inferInstanceAs (Decidable (IsAsciiText _))
  | .recordCacheSample _ | .beginFrame _ | .endFrame _ _ | .reset => .isTrue trivial

/-- The recorded texts are ASCII. -/
def Recorded.IsAscii (r : Recorded) : Prop :=
  ∀ slot, IsAsciiText (r.texts slot).1 ∧ IsAsciiText (r.texts slot).2

namespace Recorded

variable {r : Recorded}

theorem IsAscii.add (hascii : r.IsAscii) {name category : Option Text}
    (hname : IsAsciiText (name.getD [])) (hcategory : IsAsciiText (category.getD [])) :
    (r.add name category).IsAscii := by
  intro slot
  rw [Recorded.add]
  dsimp only
  split_ifs with hfull
  · exact hascii slot
  · by_cases hslot : slot = r.write.toNat
    · rw [hslot, Function.update_self]
      exact ⟨fun byte hbyte ↦ hname byte ((List.takeWhile_prefix _).subset hbyte),
        fun byte hbyte ↦ hcategory byte ((List.takeWhile_prefix _).subset hbyte)⟩
    · rw [Function.update_of_ne hslot]
      exact hascii slot

theorem IsAscii.call {Thread : Type} (hascii : r.IsAscii) {call : ProfilerCall Thread}
    (hcall : call.IsAscii) : (r.call call).IsAscii := by
  cases call with
  | recordSpan thread name category startUs endUs => exact hascii.add hcall.1 hcall.2
  | recordAllocator thread name bytes nowUs => exact hascii.add hcall (by decide)
  | recordCacheSample hit => exact hascii
  | beginFrame nowUs => exact hascii
  | endFrame thread nowUs => exact hascii.add (by decide) (by decide)
  | reset => exact hascii

theorem isAscii_of {Thread : Type} {calls : List (ProfilerCall Thread)}
    (hcalls : ∀ call ∈ calls, call.IsAscii) : (of calls).IsAscii := by
  refine List.foldlRecOn calls call ?_ fun r hascii call hmem ↦ hascii.call (hcalls call hmem)
  exact fun slot ↦ ⟨fun _ hbyte ↦ absurd hbyte List.not_mem_nil,
    fun _ hbyte ↦ absurd hbyte List.not_mem_nil⟩

end Recorded

open Profiler

/-- A name with a tab. The trace has the tab between the quotation marks, so that what stands there
is no string of JSON. -/
theorem trace_strings_fails : ∃ calls : List (ProfilerCall Unit),
    (∀ call ∈ calls, call.IsAscii) ∧ 0 < (run calls).eventCount ∧
    (Recorded.of calls).keptName 0 = [97, 9, 98] ∧
    ((run calls).events 0).nameLiteral = [34, 97, 9, 98, 34] ∧
    ¬ ∃ value, JsonString (codes ((run calls).events 0).nameLiteral) value := by
  refine ⟨[.recordSpan () (some [97, 9, 98]) (some (ascii "cpu")) 0 1], by decide, by decide,
    by decide, by decide, ?_⟩
  rintro ⟨value, hstring⟩
  exact absurd (escapable_of_jsonString hstring) (by decide)

/-- In every trace after every sequence of calls with ASCII names and categories, the line of every
event of the table has its name and its category as literals. All of these are strings of JSON that
stand for the recorded texts, cut to 47 and 15 bytes, if and only if no part that is kept of a
recorded text has a control character other than the newline. -/
theorem trace_strings {Thread : Type} [DecidableEq Thread] (calls : List (ProfilerCall Thread))
    (hascii : ∀ call ∈ calls, call.IsAscii) :
    (∀ slot < (run calls).eventCount, ∀ path opened written nowUs trace,
      ((run calls).exportChromeTrace path opened written nowUs).1 = some trace →
        ((run calls).events slot).texts <:+: trace) ∧
    ((∀ slot < (run calls).eventCount,
        ReadsAs ((run calls).events slot).nameLiteral ((Recorded.of calls).keptName slot) ∧
          ReadsAs ((run calls).events slot).categoryLiteral
            ((Recorded.of calls).keptCategory slot)) ↔
      ∀ slot < (Recorded.of calls).count, Escapable ((Recorded.of calls).keptName slot) ∧
        Escapable ((Recorded.of calls).keptCategory slot)) := by
  have hkeeps := keeps_run calls
  have hrecorded := Recorded.isAscii_of hascii
  rw [← hkeeps.eventCount_eq]
  refine ⟨fun slot hslot path opened written nowUs trace htrace ↦ ?_,
    forall_congr' fun slot ↦ imp_congr_right fun _ ↦ ?_⟩
  · unfold exportChromeTrace at htrace
    split_ifs at htrace
    exact Option.some.inj htrace ▸ texts_infix_chromeTrace (run calls) nowUs hslot
  · have hname : ReadsAs ((run calls).events slot).nameLiteral ((Recorded.of calls).keptName slot) ↔
        Escapable ((Recorded.of calls).keptName slot) := by
      rw [Event.nameLiteral, (hkeeps.texts_eq slot).1]
      exact readsAs_quoted fun byte hbyte ↦ (hrecorded slot).1 byte (List.mem_of_mem_take hbyte)
    have hcategory : ReadsAs ((run calls).events slot).categoryLiteral
        ((Recorded.of calls).keptCategory slot) ↔
          Escapable ((Recorded.of calls).keptCategory slot) := by
      rw [Event.categoryLiteral, (hkeeps.texts_eq slot).2]
      exact readsAs_quoted fun byte hbyte ↦ (hrecorded slot).2 byte (List.mem_of_mem_take hbyte)
    exact and_congr hname hcategory

/-- The theorem at a span whose name has 48 bytes with a newline, a quotation mark and a backslash
in it, and a counter. -/
theorem trace_strings_two : ∃ calls : List (ProfilerCall Unit),
    (run calls).eventCount = 2 ∧ ∀ slot < 2,
      ReadsAs ((run calls).events slot).nameLiteral ((Recorded.of calls).keptName slot) ∧
        ReadsAs ((run calls).events slot).categoryLiteral
          ((Recorded.of calls).keptCategory slot) := by
  let calls : List (ProfilerCall Unit) :=
    [.recordSpan () (some ([10, 34, 92] ++ List.replicate 45 127)) (some (ascii "cpu")) 0 1,
      .recordAllocator () (some (ascii "arena_high_water")) 4096 2]
  refine ⟨calls, by decide, fun slot hslot ↦ ?_⟩
  exact (trace_strings calls (by decide)).2.mpr (by decide) slot hslot

end GameEngine.Core
