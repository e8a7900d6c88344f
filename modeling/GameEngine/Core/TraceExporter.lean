import GameEngine.Core.TraceDocument
import GameEngine.Library.FloatingNumbers

/-!
# The trace exporter

`tools/trace_exporter.py` checks a trace and prints its counters. `TraceExporter.main` is what it
does with the text of its input file: what it prints and its exit code, or nothing when it stops
with an exception. How `float` reads a string and which files can be copied to are parameters, and
the names of the counters are given as the values that are printed.

`exporter_of_trace` says what it does with the trace of a profiler after any calls: it prints the
number of events, the counters of the table and the three of the profiler, and exits with zero, or
it stops with an exception if the trace is no document or cannot be copied.
-/

set_option autoImplicit false
set_option relaxedAutoImplicit false

namespace GameEngine.Core

open GameEngine.Library
open Json

namespace TraceExporter

/-! ### The program -/

/-- A line that is printed. -/
inductive PrintedLine
  | events (count : ℕ)
  | counter (name : Option Json) (value : Text)
  | copied (destination : Text)

/-- The exit code and the printed lines. -/
structure Outcome where
  code : ℕ
  lines : List PrintedLine

/-- The name of a member. -/
def key (name : String) : List ℕ := codes (ascii name)

/-- The value is an object. -/
def isDict : Json → Bool
  | .object _ => true
  | _ => false

/-- The value can be an element of a set. -/
def isHashable : Json → Bool
  | .array _ => false
  | .object _ => false
  | _ => true

/-- The value is a given string. -/
def isString (text : List ℕ) : Json → Bool
  | .string value => value = text
  | _ => false

variable (parseFloat : List ℕ → Option (Floating binary64))

/-- `float`, unless it raises an exception. -/
def toFloat : Json → Option (Floating binary64)
  | .integer value =>
    match (Floating.ofRat value : Floating binary64) with
    | .infinite _ => none
    | number => some number
  | .decimal coefficient exponent => some (Floating.ofRat (coefficient * 10 ^ exponent))
  | .boolean value => some (Floating.ofRat (if value then 1 else 0))
  | .string value => parseFloat value
  | _ => none

/-- How many digits the format `g` prints. -/
def significantDigits : ℕ := 6

instance : NeZero significantDigits := ⟨by decide⟩

/-- A number in the format `g`. -/
def formatG : Floating binary64 → Text
  | .finite value => (DecimalNumeral.printed significantDigits value.number).text
  | .infinite true => ascii "-inf"
  | .infinite false => ascii "inf"
  | .nan => ascii "nan"

/-- `counter_value`, unless it raises an exception. -/
def counterValue (event : Json) : Option (Option (Floating binary64)) :=
  match event.get (key "args") with
  | some (.object members) =>
    match Json.get (key "value") (.object members), Json.get (key "bytes") (.object members) with
    | some value, _ => (toFloat parseFloat value).map some
    | none, some bytes => (toFloat parseFloat bytes).map some
    | none, none => some none
  | _ => some none

/-- The line of an event, if it has one, unless an exception is raised. -/
def counterLine (event : Json) : Option (List PrintedLine) :=
  if isDict event && (event.get (key "ph")).any (isString (key "C")) then
    (counterValue parseFloat event).map fun value ↦
      value.toList.map fun number ↦ .counter (event.get (key "name")) (formatG number)
  else some []

variable (copies : Text → Bool)

/-- `main`, unless it raises an exception. The input is missing or has a text, and the output is the
empty text if it is not given. `copies` says of an output whether its directory can be made and the
input copied to it: it may be the input, a directory or a file that cannot be written. -/
def main (input : Option (List ℕ)) (output : Text) : Option Outcome :=
  match input with
  | none => some ⟨1, []⟩
  | some text => do
    let data ← readDocument text
    if isDict data then
      match data.get (key "traceEvents") with
      | some (.array events) =>
        if (data.get (key "displayTimeUnit")).any (isString (key "us")) then
          let names := (events.filter isDict).map (Json.get (key "name"))
          if names.all fun name ↦ name.all isHashable then
            let has (name : String) := names.any fun value ↦ value.any (isString (key name))
            if !has "process_name" then some ⟨1, []⟩
            else if !has "cache_hits" || !has "cache_misses" then some ⟨1, []⟩
            else do
              let counters ← events.mapM (counterLine parseFloat)
              let lines := .events events.length :: counters.flatten
              if output = [] then return ⟨0, lines⟩
              else if copies output then return ⟨0, lines ++ [.copied output]⟩
              else none
          else none
        else some ⟨1, []⟩
      | _ => some ⟨1, []⟩
    else none

/-! ### What it does with a trace -/

/-- What is printed for a counter. -/
def printed (name : Text) (value : ℕ) : PrintedLine :=
  .counter (some (.string (codes name))) (formatG (Floating.ofRat value))

/-- What is printed for the event of a table. -/
def eventLines (e : Profiler.Event) : List PrintedLine :=
  if e.phase = Profiler.counterPhase then [printed (Telemetry.cString e.name) e.counter.toNat]
    else []

/-- A 64-bit counter is a number that `float` takes. -/
theorem toFloat_natCast {number : ℕ} (hnumber : number < 2 ^ 64) :
    toFloat parseFloat (.integer number) = some (Floating.ofRat number) := by
  have hzero : binary64.IsValue 0 := ⟨0, 0, by norm_num [binary64], by simp [binary64], by simp⟩
  have hnear := hzero.abs_nearest_sub_le (number : ℚ)
  have hbound : (number : ℚ) ≤ 2 ^ 64 := by exact_mod_cast hnumber.le
  have hpos : (0 : ℚ) ≤ number := Nat.cast_nonneg number
  rw [zero_sub, abs_neg, abs_of_nonneg hpos] at hnear
  have hfinite : |binary64.nearest (number : ℚ)| ≤ binary64.greatest := by
    have htriangle : |binary64.nearest (number : ℚ)| ≤
        |binary64.nearest (number : ℚ) - number| + |(number : ℚ)| := by
      simpa using abs_add_le (binary64.nearest (number : ℚ) - number) (number : ℚ)
    rw [abs_of_nonneg hpos] at htriangle
    have hgreatest : (2 : ℚ) ^ 65 ≤ binary64.greatest :=
      (pow_le_pow_right₀ (by norm_num) (by norm_num : 65 ≤ 971)).trans
        (le_mul_of_one_le_left (by positivity) (by norm_num))
    linarith
  unfold toFloat
  simp [Floating.ofRat, hfinite]

variable {Thread : Type}

theorem get_traceEvents (p : Profiler Thread) (nowUs : UInt64) :
    (p.traceValue nowUs).get (key "traceEvents") = some (.array (p.traceEvents nowUs)) := rfl

theorem get_displayTimeUnit (p : Profiler Thread) (nowUs : UInt64) :
    (p.traceValue nowUs).get (key "displayTimeUnit") = some (.string (key "us")) := rfl

/-- What the exporter sees of an element of a trace: an object with a name, and what it prints. -/
structure Shows (event : Json) (name : Text) (lines : List PrintedLine) : Prop where
  isDict_eq : isDict event = true
  name_eq : event.get (key "name") = some (.string (codes name))
  line_eq : counterLine parseFloat event = some lines

theorem shows_process (name label value : String) :
    Shows parseFloat (Profiler.processValue name label value) (ascii name) [] := ⟨rfl, rfl, rfl⟩

theorem shows_thread (tid : UInt32) :
    Shows parseFloat (Profiler.threadValue tid) (ascii "thread_name") [] := ⟨rfl, rfl, rfl⟩

/-- A counter is printed with its value. -/
theorem counterLine_eq {event : Json} {name : Text} {value : UInt64}
    {members : List (List ℕ × Json)} (hdict : isDict event = true)
    (hname : event.get (key "name") = some (.string (codes name)))
    (hph : event.get (key "ph") = some (.string (key "C")))
    (hargs : event.get (key "args") = some (.object members))
    (hvalue : Json.get (key "value") (.object members) = some (.integer value.toNat)) :
    counterLine parseFloat event = some [printed name value.toNat] := by
  have hnumber := toFloat_natCast parseFloat (UInt64.toNat_lt value)
  have hread : counterValue parseFloat event = some (some (Floating.ofRat value.toNat)) := by
    rw [counterValue, hargs]
    dsimp only
    rw [hvalue]
    dsimp only
    rw [hnumber, Option.map_some]
  rw [counterLine, hdict, hph, hread, hname]
  simp [isString, printed]

theorem shows_counter (name category : Text) (endTs value : UInt64) :
    Shows parseFloat (Profiler.counterValue name category endTs value) name
      [printed name value.toNat] :=
  ⟨rfl, rfl, counterLine_eq parseFloat rfl rfl rfl rfl rfl⟩

theorem shows_event {e : Profiler.Event} (he : e.IsRecorded) :
    Shows parseFloat e.value (Telemetry.cString e.name) (eventLines e) := by
  have hvalue : e.value = .object [named "name" (.string (codes (Telemetry.cString e.name))),
      named "cat" (.string (codes (Telemetry.cString e.category))),
      named "ph" (.string (codes [e.phase])), named "ts" (.integer e.tsUs.toNat),
      named "pid" (.integer 1), named "tid" (.integer e.tid.toNat), e.detail] := rfl
  rcases he with hphase | hphase
  · have hdetail : e.detail = named "dur" (.integer e.durUs.toNat) := if_pos hphase
    rw [hvalue, hdetail, hphase, eventLines, hphase]
    exact ⟨rfl, rfl, rfl⟩
  · have hdetail : e.detail = named "args" (.object [named "bytes" (.integer e.counter.toNat),
        named "value" (.integer e.counter.toNat)]) := if_neg (by rw [hphase]; decide)
    rw [hvalue, hdetail, hphase, eventLines, hphase]
    exact ⟨rfl, rfl, counterLine_eq parseFloat rfl rfl rfl rfl rfl⟩

/-- What is printed for the events of a trace. -/
def traceLines (p : Profiler Thread) : List PrintedLine :=
  p.recordedEvents.flatMap eventLines ++ [printed (ascii "cache_hits") p.cacheHits.toNat,
    printed (ascii "cache_misses") p.cacheMisses.toNat,
    printed (ascii "trace_dropped") p.dropped.toNat]

/-- The elements of a trace with their names and what is printed for them. -/
def shown (p : Profiler Thread) (nowUs : UInt64) : List (Json × Text × List PrintedLine) :=
  [(Profiler.processValue "process_name" "name" "eoc", ascii "process_name", []),
    (Profiler.processValue "process_labels" "labels" "engineoptimizationcore",
      ascii "process_labels", [])] ++
  p.threadIdsShown.map (fun tid ↦ (Profiler.threadValue tid, ascii "thread_name", [])) ++
  p.recordedEvents.map (fun e ↦ (e.value, Telemetry.cString e.name, eventLines e)) ++
  [(Profiler.counterValue (ascii "cache_hits") (ascii "cache") (p.endTs nowUs) p.cacheHits,
      ascii "cache_hits", [printed (ascii "cache_hits") p.cacheHits.toNat]),
    (Profiler.counterValue (ascii "cache_misses") (ascii "cache") (p.endTs nowUs) p.cacheMisses,
      ascii "cache_misses", [printed (ascii "cache_misses") p.cacheMisses.toNat]),
    (Profiler.counterValue (ascii "trace_dropped") (ascii "profiler") (p.endTs nowUs) p.dropped,
      ascii "trace_dropped", [printed (ascii "trace_dropped") p.dropped.toNat])]

theorem map_shown (p : Profiler Thread) (nowUs : UInt64) :
    (shown p nowUs).map Prod.fst = p.traceEvents nowUs := by
  simp [shown, Profiler.traceEvents, Function.comp_def]

theorem flatten_shown (p : Profiler Thread) (nowUs : UInt64) :
    ((shown p nowUs).map fun entry ↦ entry.2.2).flatten = traceLines p := by
  simp [shown, traceLines, Function.comp_def, List.flatMap_def]

theorem shows_shown {p : Profiler Thread} (hevents : ∀ e ∈ p.recordedEvents, e.IsRecorded)
    (nowUs : UInt64) :
    ∀ entry ∈ shown p nowUs, Shows parseFloat entry.1 entry.2.1 entry.2.2 := by
  intro entry hentry
  simp only [shown, List.mem_append, List.mem_cons, List.not_mem_nil, or_false,
    List.mem_map] at hentry
  rcases hentry with (((rfl | rfl) | ⟨tid, -, rfl⟩) | ⟨e, he, rfl⟩) | rfl | rfl | rfl
  · exact shows_process ..
  · exact shows_process ..
  · exact shows_thread ..
  · exact shows_event parseFloat (hevents e he)
  · exact shows_counter ..
  · exact shows_counter ..
  · exact shows_counter ..

/-- A list on whose elements a function does not fail. -/
theorem mapM_of_shows {entries : List (Json × Text × List PrintedLine)}
    (hshows : ∀ entry ∈ entries, Shows parseFloat entry.1 entry.2.1 entry.2.2) :
    (entries.map Prod.fst).mapM (counterLine parseFloat) =
      some (entries.map fun entry ↦ entry.2.2) := by
  induction entries with
  | nil => rfl
  | cons entry entries ih =>
    have hline := (hshows entry List.mem_cons_self).line_eq
    rw [List.map_cons, List.mapM_cons, hline,
      ih fun other hother ↦ hshows other (List.mem_cons_of_mem _ hother)]
    rfl

/-- The names of the elements. -/
theorem names_of_shows {entries : List (Json × Text × List PrintedLine)}
    (hshows : ∀ entry ∈ entries, Shows parseFloat entry.1 entry.2.1 entry.2.2) :
    ((entries.map Prod.fst).filter isDict).map (Json.get (key "name")) =
      entries.map fun entry ↦ some (.string (codes entry.2.1)) := by
  induction entries with
  | nil => rfl
  | cons entry entries ih =>
    obtain ⟨hdict, hname, -⟩ := hshows entry List.mem_cons_self
    rw [List.map_cons, List.filter_cons_of_pos hdict, List.map_cons, hname,
      ih fun other hother ↦ hshows other (List.mem_cons_of_mem _ hother), List.map_cons]

/-- The elements have a given name among theirs. -/
theorem any_names {entries : List (Json × Text × List PrintedLine)} (name : String)
    (hname : ∃ entry ∈ entries, entry.2.1 = ascii name) :
    (entries.map fun entry ↦ some (Json.string (codes entry.2.1))).any
      (fun value ↦ value.any (isString (key name))) = true := by
  obtain ⟨entry, hentry, hsame⟩ := hname
  rw [List.any_eq_true]
  refine ⟨_, List.mem_map_of_mem hentry, ?_⟩
  rw [hsame]
  simp [isString, key]

/-- What the exporter does with a document that is the value of a trace. -/
theorem main_of_traceValue {p : Profiler Thread} {nowUs : UInt64} {text : List ℕ}
    (hread : readDocument text = some (p.traceValue nowUs))
    (hevents : ∀ e ∈ p.recordedEvents, e.IsRecorded) (output : Text) :
    main parseFloat copies (some text) output =
      if output = [] ∨ copies output then
        some ⟨0, .events (5 + p.threadIdsShown.length + p.eventCount) :: traceLines p ++
          if output = [] then [] else [.copied output]⟩
      else none := by
  have hshows := shows_shown parseFloat hevents nowUs
  have hmapM := mapM_of_shows parseFloat hshows
  rw [map_shown] at hmapM
  have hlength : (p.traceEvents nowUs).length = 5 + p.threadIdsShown.length + p.eventCount := by
    simp [Profiler.traceEvents, Profiler.recordedEvents]
    omega
  have hnames := names_of_shows parseFloat hshows
  rw [map_shown] at hnames
  have hhashable : ((shown p nowUs).map fun entry ↦ some (Json.string (codes entry.2.1))).all
      (fun name ↦ name.all isHashable) = true := by simp [isHashable]
  have hprocess := any_names "process_name"
    (show ∃ entry ∈ shown p nowUs, _ from ⟨_, List.mem_cons_self, rfl⟩)
  have hhits := any_names "cache_hits" (show ∃ entry ∈ shown p nowUs, _ from
    ⟨_, List.mem_append_right _ List.mem_cons_self, rfl⟩)
  have hmisses := any_names "cache_misses" (show ∃ entry ∈ shown p nowUs, _ from
    ⟨_, List.mem_append_right _ (List.mem_cons_of_mem _ List.mem_cons_self), rfl⟩)
  unfold main
  dsimp only [Option.bind_eq_bind]
  rw [hread, Option.bind_some, show isDict (p.traceValue nowUs) = true from rfl, if_pos rfl,
    get_traceEvents, get_displayTimeUnit]
  dsimp only
  rw [hnames, if_pos (by simp [isString]), if_pos hhashable, if_neg (by rw [hprocess]; decide),
    if_neg (by rw [hhits, hmisses]; decide), hmapM, Option.bind_some, hlength, flatten_shown]
  by_cases houtput : output = []
  · rw [if_pos houtput, if_pos houtput, if_pos (.inl houtput), List.append_nil]
    rfl
  · rw [if_neg houtput, if_neg houtput]
    exact if_congr (by simp [houtput]) rfl rfl

/-- What the exporter does with the trace of a profiler after any calls with ASCII names and
categories. If no part that is kept of a recorded text has a control character other than the
newline, and the output, if there is one, can be copied to, it prints the number of the events of
the trace, one line for each counter of the table and the three counters of the profiler, and exits
with zero. Otherwise it stops with an exception. -/
theorem exporter_of_trace [DecidableEq Thread] (calls : List (ProfilerCall Thread))
    (hascii : ∀ call ∈ calls, call.IsAscii) (nowUs : UInt64) (output : Text) :
    main parseFloat copies (some (codes ((Profiler.run calls).chromeTrace nowUs))) output =
      if (∀ slot < (Recorded.of calls).count, Escapable ((Recorded.of calls).keptName slot) ∧
        Escapable ((Recorded.of calls).keptCategory slot)) ∧ (output = [] ∨ copies output)
      then some ⟨0, .events (5 + (Profiler.run calls).threadIdsShown.length +
        (Profiler.run calls).eventCount) :: traceLines (Profiler.run calls) ++
          if output = [] then [] else [.copied output]⟩
      else none := by
  have hread := Profiler.readDocument_chromeTrace nowUs (Profiler.recorded_run calls hascii)
  by_cases hreadable : ∀ e ∈ (Profiler.run calls).recordedEvents, e.IsReadable
  · rw [if_pos hreadable] at hread
    rw [main_of_traceValue parseFloat copies hread
      (fun e he ↦ (Profiler.recorded_run calls hascii e he).1) output]
    exact if_congr (and_iff_right ((Profiler.isReadable_run calls).mp hreadable)).symm rfl rfl
  · rw [if_neg hreadable] at hread
    rw [if_neg fun hall ↦ hreadable ((Profiler.isReadable_run calls).mpr hall.1), main]
    dsimp only [Option.bind_eq_bind]
    rw [hread, Option.bind_none]

/-- The theorem at a span and a counter whose name has a quotation mark, recorded by two threads. -/
theorem exporter_of_trace_two :
    main (fun _ ↦ none) (fun _ ↦ false) (some (codes ((Profiler.run
      [.recordSpan false (some (ascii "tick")) (some (ascii "cpu")) 3 7,
        .recordAllocator true (some [34, 97]) 4096 9]).chromeTrace 9))) [] =
      some ⟨0, [.events 9, printed [34, 97] 4096, printed (ascii "cache_hits") 0,
        printed (ascii "cache_misses") 0, printed (ascii "trace_dropped") 0]⟩ := by
  rw [exporter_of_trace _ _ _ (by decide), if_pos (by decide)]
  rfl

end TraceExporter

end GameEngine.Core
