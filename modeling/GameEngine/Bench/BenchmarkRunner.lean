import GameEngine.Bench.BenchOptions
import GameEngine.Library.KeyedLines

/-!
# The benchmark and its runner

`tools/benchmark_runner.py` starts the benchmark once for every number of workers and size of the
arena that it is to try. The arguments go to the benchmark as text, and what it has measured comes
back as the lines that it prints. `sweep_benchmark` says that nothing is lost on the way: the runner
ends up with one row for each of its settings, in order, which has every metric of a run with just
these options, and with the last exit code that is not zero. If a run ends before it has printed,
the runner gives up.

How each run ends and what it measures is a parameter. The numbers that are printed with a point are
given by their texts. Left out are what the runner prints and the file it writes.
-/

set_option autoImplicit false
set_option relaxedAutoImplicit false

namespace GameEngine.Bench

open GameEngine.Library GameEngine.Library.KeyedLines GameEngine.Core

/-! ### What the benchmark prints -/

/-- What a run of the benchmark measures. -/
structure Measured where
  arenaNsPerAlloc : Text
  poolNsPerAlloc : Text
  independentUs : Text
  dagUs : Text
  counter : ℤ
  dagFlag : ℤ
  workers : ℕ
  frameUs : ℕ
  traceEvents : ℕ
  traceExported : Bool
  cacheHits : ℕ
  cacheMisses : ℕ
  inferenceOut0 : Text
  inferenceBackend : Text
  inferenceUs : Text
  onnxRuntime : Bool
  modulesReady : ℕ
  moduleProperties : ℕ
  modulesOk : Bool
  audioSamples : ℕ
  videoFrames : ℤ
  telemetryFlushed : ℕ
  tickOk : ℤ
  tickUsAvg : Text
  assetsLoaded : Bool
  plain : ∀ text ∈ [arenaNsPerAlloc, poolNsPerAlloc, independentUs, dagUs, inferenceOut0,
    inferenceBackend, inferenceUs, tickUsAvg], IsPlain text

/-- A flag, as it is printed. -/
def flagText (flag : Bool) : Text := natText (if flag then 1 else 0)

/-- The lines that `main` prints. -/
def report (opts : BenchOpts) (m : Measured) : List (Text × Text) :=
  [(ascii "arena_ns_per_alloc", m.arenaNsPerAlloc), (ascii "pool_ns_per_alloc", m.poolNsPerAlloc),
    (ascii "taskgraph_independent_us", m.independentUs), (ascii "taskgraph_dag_us", m.dagUs),
    (ascii "taskgraph_counter", intText m.counter), (ascii "taskgraph_dag_flag", intText m.dagFlag),
    (ascii "taskgraph_workers", natText m.workers), (ascii "arena_bytes", natText opts.arenaBytes),
    (ascii "frame_us", natText m.frameUs), (ascii "trace_events", natText m.traceEvents),
    (ascii "trace_exported", flagText m.traceExported), (ascii "cache_hits", natText m.cacheHits),
    (ascii "cache_misses", natText m.cacheMisses), (ascii "inference_out0", m.inferenceOut0),
    (ascii "inference_backend", m.inferenceBackend), (ascii "inference_us", m.inferenceUs),
    (ascii "onnx_runtime", flagText m.onnxRuntime), (ascii "modules_ready", natText m.modulesReady),
    (ascii "module_properties", natText m.moduleProperties),
    (ascii "modules_ok", flagText m.modulesOk), (ascii "audio_samples", natText m.audioSamples),
    (ascii "video_frames", intText m.videoFrames),
    (ascii "telemetry_flushed", natText m.telemetryFlushed),
    (ascii "tick_frames", intText opts.frames), (ascii "tick_ok", intText m.tickOk),
    (ascii "tick_us_avg", m.tickUsAvg), (ascii "assets_loaded", flagText m.assetsLoaded)]

/-- The exit code of `main` after a run. -/
def exitCode (opts : BenchOpts) (m : Measured) : ℕ :=
  if m.counter = 512 ∧ m.dagFlag = 12 ∧ m.modulesOk ∧ m.audioSamples = 256 ∧ 8 ≤ m.videoFrames ∧
    m.telemetryFlushed = 2 ∧ (opts.frames ≤ 0 ∨ m.tickOk = opts.frames) then 0 else 1

/-- How a run ends whose arguments have been taken. `main` prints all of its lines at once, after
everything that it measures. -/
inductive Ending
  /-- `main` returns. -/
  | returned (m : Measured)
  /-- `main` has printed and does not return: the code is that of a signal or of the timeout. -/
  | stopped (m : Measured) (code : ℤ)
  /-- `main` has not printed yet: an exception that nobody catches, a signal or the timeout. -/
  | failed (code : ℤ)

/-- What has been measured, if it is printed. -/
def Ending.measured : Ending → Option Measured
  | .returned m => some m
  | .stopped m _ => some m
  | .failed _ => none

/-- The code that the runner gets. -/
def Ending.code (opts : BenchOpts) : Ending → ℤ
  | .returned m => exitCode opts m
  | .stopped _ code => code
  | .failed code => code

/-- A run of the benchmark on its arguments: its exit code and what it prints. -/
def benchmark (measure : ℕ → BenchOpts → Ending) (run : ℕ) (args : List Text) : ℤ × Text :=
  match parseOpts .new args with
  | none => (2, [])
  | some opts =>
    ((measure run opts).code opts,
      (measure run opts).measured.elim [] fun m ↦ (report opts m).flatMap printLine)

/-! ### The runner -/

/-- The arguments with which `run_once` starts a program. -/
def command (workers arena : Text) (frames : ℤ) (assets trace : Text) : List Text :=
  (if workers = [] then [] else [ascii "--workers", workers]) ++
  (if arena = [] then [] else [ascii "--arena-bytes", arena]) ++
  (if 0 ≤ frames then [ascii "--frames", intText frames] else []) ++
  (if assets = [] then [] else [ascii "--assets", assets]) ++
  (if trace = [] then [] else [ascii "--trace", trace])

/-- `run_once`: the exit code of the program and its metrics. After a timeout they are `124` and
those of what has been printed until then. -/
def runOnce (program : List Text → ℤ × Text) (workers arena : Text) (frames : ℤ)
    (assets trace : Text) : ℤ × Dictionary :=
  let result := program (command workers arena frames assets trace)
  (result.1, readLines result.2)

/-- The metrics that a run must have. -/
def required : List Text :=
  [ascii "arena_ns_per_alloc", ascii "pool_ns_per_alloc", ascii "taskgraph_independent_us",
    ascii "taskgraph_dag_us"]

/-- `required_ok`. -/
def requiredOk (metrics : Dictionary) : List Text :=
  required.filter fun name ↦ (metrics name).isNone

/-- The loop of `main` over its settings: the rows and the exit code so far. It returns early if a
required metric is missing. The program may do something else in every run; there has been one run
for every row. -/
def sweep (program : ℕ → List Text → ℤ × Text) (frames : ℤ) (assets trace : Text) :
    List (Text × Text) → List (ℤ × Dictionary) × ℤ → Option (List (ℤ × Dictionary) × ℤ)
  | [], done => some done
  | (workers, arena) :: rest, (rows, worst) =>
    let row := runOnce (program rows.length) workers arena frames assets trace
    if requiredOk row.2 ≠ [] then none
    else sweep program frames assets trace rest
      (rows ++ [row], if row.1 = 0 then worst else row.1)

/-- A setting, as text. Without a setting the text is empty. -/
def settingText (setting : Option ℕ) : Text := setting.elim [] natText

/-- The settings that `main` goes through. -/
def settings (workers arenas : List (Option ℕ)) : List (Option ℕ × Option ℕ) :=
  workers.flatMap fun w ↦ arenas.map fun a ↦ (w, a)

/-- The options that the runner means. -/
def meantOpts (setting : Option ℕ × Option ℕ) (frames : ℤ) (assets trace : Text) : BenchOpts where
  workers := setting.1.getD BenchOpts.new.workers
  arenaBytes := setting.2.getD BenchOpts.new.arenaBytes
  frames := if 0 ≤ frames then frames else BenchOpts.new.frames
  assets := if assets = [] then none else some assets
  trace := if trace = [] then BenchOpts.new.trace else trace

/-! ### The arguments arrive -/

theorem natText_eq_intText (number : ℕ) : natText number = intText number := by
  simp [intText]

theorem cString_of_not_mem {text : Text} (hzero : 0 ∉ text) : Telemetry.cString text = text :=
  List.takeWhile_eq_self_iff.mpr fun byte hbyte ↦ by
    simp only [decide_eq_true_eq]
    rintro rfl
    exact hzero hbyte

/-- A number that is printed is no zero. -/
theorem cString_intText (number : ℤ) : Telemetry.cString (intText number) = intText number := by
  refine cString_of_not_mem fun hzero ↦ ?_
  have hdigit : (0 : UInt8) ∉ natText number.natAbs := fun h ↦ by
    have := isDigit_of_mem_natText h
    exact absurd this (by decide)
  unfold intText at hzero
  split_ifs at hzero
  · rcases List.mem_cons.mp hzero with hsign | hrest
    · exact absurd hsign (by decide)
    · exact hdigit hrest
  · exact hdigit hzero

theorem intText_ne_nil (number : ℤ) : intText number ≠ [] := by
  unfold intText
  split_ifs
  · exact List.cons_ne_nil _ _
  · exact natText_ne_nil _

/-- A size comes back from its text. -/
theorem parseSize_natText {number : ℕ} (hnumber : number < 2 ^ 64) :
    parseSize (some (natText number)) = number := by
  have hread := strtoull_intText (show (number : ℤ).natAbs < 2 ^ 64 by simpa using hnumber)
  rw [natText_eq_intText, parseSize, cString_intText, if_neg (intText_ne_nil _)]
  omega

/-- A number of frames comes back from its text. -/
theorem parseI32_intText {number : ℤ} (hlower : 0 ≤ number) (hupper : number < 2 ^ 31) :
    parseI32 (some (intText number)) = number := by
  rw [parseI32, cString_intText, if_neg (intText_ne_nil _), strtol_intText (by omega) (by omega)]
  exact Int.bmod_eq_of_le_mul_two (by omega) (by omega)

/-- The options that the arguments of a program of the runner give. -/
def commandOptions (workers arena : Text) (frames : ℤ) (assets trace : Text) :
    List (BenchOption × Text) :=
  (if workers = [] then [] else [(.workers, workers)]) ++
  (if arena = [] then [] else [(.arenaBytes, arena)]) ++
  (if 0 ≤ frames then [(.frames, intText frames)] else []) ++
  (if assets = [] then [] else [(.assets, assets)]) ++
  (if trace = [] then [] else [(.trace, trace)])

theorem arguments_append (first second : List (BenchOption × Text)) :
    arguments (first ++ second) = arguments first ++ arguments second := List.flatMap_append

theorem command_eq (workers arena : Text) (frames : ℤ) (assets trace : Text) :
    command workers arena frames assets trace =
      arguments (commandOptions workers arena frames assets trace) := by
  have hite : ∀ (c : Prop) [Decidable c] (first second : List (BenchOption × Text)),
      arguments (if c then first else second) = if c then arguments first else arguments second :=
    fun c _ first second ↦ apply_ite arguments c first second
  simp only [commandOptions, arguments_append, hite]
  rfl

theorem settingText_some_ne_nil (number : ℕ) : settingText (some number) ≠ [] :=
  natText_ne_nil number

/-- The number of workers that a setting asks for is taken. -/
theorem set_workers {workers : Option ℕ} (hworkers : ∀ w ∈ workers, w < 2 ^ 64)
    (opts : BenchOpts) :
    (if settingText workers = [] then opts else opts.set .workers (settingText workers)) =
      { opts with workers := workers.getD opts.workers } := by
  cases workers with
  | none => rfl
  | some w =>
    rw [if_neg (settingText_some_ne_nil w)]
    change { opts with workers := parseSize (some (natText w)) } = _
    rw [parseSize_natText (hworkers w rfl)]
    rfl

/-- The size of the arena that a setting asks for is taken. -/
theorem set_arena {arena : Option ℕ} (harena : ∀ a ∈ arena, 0 < a ∧ a < 2 ^ 64)
    (opts : BenchOpts) :
    (if settingText arena = [] then opts else opts.set .arenaBytes (settingText arena)) =
      { opts with arenaBytes := arena.getD opts.arenaBytes } := by
  cases arena with
  | none => rfl
  | some a =>
    obtain ⟨hpos, hlt⟩ := harena a rfl
    rw [if_neg (settingText_some_ne_nil a)]
    change { opts with arenaBytes := parseArena (natText a) } = _
    rw [parseArena, parseSize_natText hlt, if_neg hpos.ne']
    rfl

/-- A number of frames is taken. -/
theorem set_frames {frames : ℤ} (hframes : frames < 2 ^ 31) (opts : BenchOpts) :
    (if 0 ≤ frames then opts.set .frames (intText frames) else opts) =
      { opts with frames := if 0 ≤ frames then frames else opts.frames } := by
  split_ifs with hnonneg
  · change { opts with frames := parseI32 (some (intText frames)) } = _
    rw [parseI32_intText hnonneg hframes]
  · rfl

/-- The benchmark gets the options that the runner means. -/
theorem parseOpts_command {setting : Option ℕ × Option ℕ} {frames : ℤ}
    (hworkers : ∀ w ∈ setting.1, w < 2 ^ 64) (harena : ∀ a ∈ setting.2, 0 < a ∧ a < 2 ^ 64)
    (hframes : frames < 2 ^ 31) (assets trace : Text) :
    parseOpts .new (command (settingText setting.1) (settingText setting.2) frames assets trace) =
      some (meantOpts setting frames assets trace) := by
  have hfold : ∀ (c : Prop) [Decidable c] (first second : List (BenchOption × Text))
      (opts : BenchOpts), (if c then first else second).foldl
        (fun opts entry ↦ opts.set entry.1 entry.2) opts =
          if c then first.foldl (fun opts entry ↦ opts.set entry.1 entry.2) opts
          else second.foldl (fun opts entry ↦ opts.set entry.1 entry.2) opts := by
    intro c _ first second opts
    split_ifs <;> rfl
  rw [command_eq, parseOpts_arguments, commandOptions]
  simp only [List.foldl_append, hfold, List.foldl_cons, List.foldl_nil]
  rw [set_workers hworkers, set_arena harena, set_frames hframes, meantOpts]
  split_ifs <;> rfl

/-! ### The metrics come back -/

/-- The bytes of a printed integer are neither white space nor colons. -/
theorem isPlain_intText (number : ℤ) : IsPlain (intText number) := by
  refine isPlain_of_not_blank fun byte hbyte ↦ ?_
  have hdigits : ∀ byte ∈ natText number.natAbs, isBlank byte = false := by
    intro byte hbyte
    have hdigit := isDigit_of_mem_natText hbyte
    simp only [isDigit, Bool.and_eq_true, decide_eq_true_eq, UInt8.le_iff_toNat_le] at hdigit
    simp only [isBlank, isBreak, Bool.or_eq_false_iff, Bool.and_eq_false_iff, beq_eq_false_iff_ne,
      decide_eq_false_iff_not, UInt8.le_iff_toNat_le, ne_eq, ← UInt8.toNat_inj]
    simp only [UInt8.reduceToNat] at *
    omega
  unfold intText at hbyte
  split_ifs at hbyte
  · rcases List.mem_cons.mp hbyte with rfl | hrest
    · decide
    · exact hdigits byte hrest
  · exact hdigits byte hbyte

theorem isPlain_natText (number : ℕ) : IsPlain (natText number) := by
  rw [natText_eq_intText]
  exact isPlain_intText number

/-- The names of the metrics. -/
def metricNames : List Text :=
  ["arena_ns_per_alloc", "pool_ns_per_alloc", "taskgraph_independent_us", "taskgraph_dag_us",
    "taskgraph_counter", "taskgraph_dag_flag", "taskgraph_workers", "arena_bytes", "frame_us",
    "trace_events", "trace_exported", "cache_hits", "cache_misses", "inference_out0",
    "inference_backend", "inference_us", "onnx_runtime", "modules_ready", "module_properties",
    "modules_ok", "audio_samples", "video_frames", "telemetry_flushed", "tick_frames", "tick_ok",
    "tick_us_avg", "assets_loaded"].map ascii

theorem fst_report (opts : BenchOpts) (m : Measured) :
    (report opts m).map Prod.fst = metricNames := rfl

/-- Every line that `main` prints comes back. -/
theorem isEntry_report (opts : BenchOpts) (m : Measured) :
    ∀ entry ∈ report opts m, IsEntry entry := by
  have hkeys : ∀ key ∈ metricNames, (∀ byte ∈ key, isBlank byte = false) ∧ 58 ∉ key := by
    decide +kernel
  have hvalues : ∀ value ∈ (report opts m).map Prod.snd, IsPlain value := by
    have hplain := m.plain
    simp only [List.forall_mem_cons] at hplain
    obtain ⟨harena, hpool, hindependent, hdag, hout, hbackend, hus, htick, -⟩ := hplain
    simp only [report, List.map_cons, List.map_nil, List.forall_mem_cons, flagText,
      isPlain_natText, isPlain_intText, true_and]
    exact ⟨harena, hpool, hindependent, hdag, hout, hbackend, hus, htick, by simp⟩
  intro entry hentry
  obtain ⟨hkey, hcolon⟩ := hkeys _ (fst_report opts m ▸ List.mem_map_of_mem hentry)
  exact ⟨isPlain_of_not_blank hkey, hcolon, hvalues _ (List.mem_map_of_mem hentry)⟩

theorem nodup_report (opts : BenchOpts) (m : Measured) : ((report opts m).map Prod.fst).Nodup := by
  have hnodup : metricNames.Nodup := by decide +kernel
  rw [fst_report]
  exact hnodup

/-- What the runner has of a run of the benchmark. -/
theorem runOnce_benchmark {setting : Option ℕ × Option ℕ} {frames : ℤ}
    (hworkers : ∀ w ∈ setting.1, w < 2 ^ 64) (harena : ∀ a ∈ setting.2, 0 < a ∧ a < 2 ^ 64)
    (hframes : frames < 2 ^ 31) (measure : ℕ → BenchOpts → Ending) (run : ℕ)
    (assets trace : Text) :
    let opts := meantOpts setting frames assets trace
    runOnce (benchmark measure run) (settingText setting.1) (settingText setting.2) frames assets
        trace =
      ((measure run opts).code opts,
        (measure run opts).measured.elim (fun _ ↦ none) fun m ↦ dictionary (report opts m)) := by
  intro opts
  rw [runOnce, benchmark, parseOpts_command hworkers harena hframes]
  dsimp only
  cases (measure run opts).measured with
  | none => rfl
  | some m =>
    dsimp only [Option.elim_some]
    rw [readLines_flatMap (isEntry_report _ _)]

/-- No metric that a run must have is missing. -/
theorem requiredOk_report (opts : BenchOpts) (m : Measured) :
    requiredOk (dictionary (report opts m)) = [] := by
  have hmem : ∀ name ∈ required, name ∈ (report opts m).map Prod.fst := by
    rw [fst_report]
    decide +kernel
  refine List.filter_eq_nil_iff.mpr fun name hname ↦ ?_
  obtain ⟨entry, hentry, rfl⟩ := List.mem_map.mp (hmem name hname)
  rw [dictionary_of_mem (nodup_report opts m) hentry]
  simp

/-! ### All settings -/

/-- The row of a run that has printed. -/
def IsRow (measure : ℕ → BenchOpts → Ending) (frames : ℤ) (assets trace : Text)
    (run : (Option ℕ × Option ℕ) × ℕ) (row : ℤ × Dictionary) : Prop :=
  let opts := meantOpts run.1 frames assets trace
  ∃ m, (measure run.2 opts).measured = some m ∧
    row = ((measure run.2 opts).code opts, dictionary (report opts m))

/-- The last code that is not zero, when one more comes before the others. -/
theorem lastCode_cons (code worst : ℤ) (codes : List ℤ) :
    ((code :: codes).reverse.find? (· ≠ 0)).getD worst =
      (codes.reverse.find? (· ≠ 0)).getD (if code = 0 then worst else code) := by
  rw [List.reverse_cons, List.find?_append]
  cases codes.reverse.find? (· ≠ 0) with
  | some last => rfl
  | none =>
    rw [Option.none_or]
    by_cases hzero : code = 0
    · simp [hzero]
    · simp [hzero]

/-- One round of the loop: it goes on with the row of the run, or gives up if the run has not
printed. -/
theorem sweep_cons {setting : Option ℕ × Option ℕ} {frames : ℤ}
    (hworkers : ∀ w ∈ setting.1, w < 2 ^ 64) (harena : ∀ a ∈ setting.2, 0 < a ∧ a < 2 ^ 64)
    (hframes : frames < 2 ^ 31) (measure : ℕ → BenchOpts → Ending) (assets trace : Text)
    (rest : List (Text × Text)) (rows : List (ℤ × Dictionary)) (worst : ℤ) :
    let opts := meantOpts setting frames assets trace
    let ending := measure rows.length opts
    sweep (benchmark measure) frames assets trace
        ((settingText setting.1, settingText setting.2) :: rest) (rows, worst) =
      ending.measured.bind fun m ↦ sweep (benchmark measure) frames assets trace rest
        (rows ++ [(ending.code opts, dictionary (report opts m))],
          if ending.code opts = 0 then worst else ending.code opts) := by
  intro opts ending
  obtain ⟨row, hrow⟩ : ∃ row, row = runOnce (benchmark measure rows.length)
      (settingText setting.1) (settingText setting.2) frames assets trace := ⟨_, rfl⟩
  rw [sweep, ← hrow]
  replace hrow : row =
      (ending.code opts, ending.measured.elim (fun _ ↦ none) fun m ↦ dictionary (report opts m)) :=
    hrow.trans
      (runOnce_benchmark hworkers harena hframes measure rows.length assets trace)
  cases hmeasured : ending.measured with
  | none =>
    have hmissing : requiredOk row.2 ≠ [] := by
      rw [hrow, hmeasured]
      exact List.cons_ne_nil _ _
    rw [Option.bind_none, if_pos hmissing]
  | some m =>
    have hpresent : requiredOk row.2 = [] := by
      rw [hrow, hmeasured]
      exact requiredOk_report opts m
    rw [Option.bind_some, if_neg (not_not.mpr hpresent)]
    rw [hmeasured, Option.elim_some] at hrow
    rw [hrow]

/-- The loop goes on and appends the row of each setting, or it ends with the first run that has not
printed. -/
theorem sweep_append {frames : ℤ} (hframes : frames < 2 ^ 31) (measure : ℕ → BenchOpts → Ending)
    (assets trace : Text) {tried : List (Option ℕ × Option ℕ)}
    (htried : ∀ setting ∈ tried, (∀ w ∈ setting.1, w < 2 ^ 64) ∧
      ∀ a ∈ setting.2, 0 < a ∧ a < 2 ^ 64) (rows : List (ℤ × Dictionary)) (worst : ℤ) :
    let result := sweep (benchmark measure) frames assets trace
      (tried.map fun setting ↦ (settingText setting.1, settingText setting.2)) (rows, worst)
    (∃ more, result =
        some (rows ++ more, ((more.map Prod.fst).reverse.find? (· ≠ 0)).getD worst) ∧
      List.Forall₂ (IsRow measure frames assets trace) (tried.zipIdx rows.length) more) ∨
    (result = none ∧ ∃ run ∈ tried.zipIdx rows.length,
      (measure run.2 (meantOpts run.1 frames assets trace)).measured = none) := by
  induction tried generalizing rows worst with
  | nil => exact .inl ⟨[], by simp [sweep], .nil⟩
  | cons setting tried ih =>
    intro result
    obtain ⟨hworkers, harena⟩ := htried setting List.mem_cons_self
    obtain ⟨opts, hopts⟩ : ∃ opts, opts = meantOpts setting frames assets trace := ⟨_, rfl⟩
    obtain ⟨ending, hending⟩ : ∃ ending, ending = measure rows.length opts := ⟨_, rfl⟩
    have hresult : result = _ :=
      sweep_cons hworkers harena hframes measure assets trace _ rows worst
    rw [← hopts, ← hending] at hresult
    rw [List.zipIdx_cons]
    cases hmeasured : ending.measured with
    | none =>
      rw [hmeasured, Option.bind_none] at hresult
      refine .inr ⟨hresult, _, List.mem_cons_self, ?_⟩
      rw [← hopts, ← hending, hmeasured]
    | some m =>
      rw [hmeasured, Option.bind_some] at hresult
      have hothers := ih (fun other hother ↦ htried other (List.mem_cons_of_mem _ hother))
        (rows ++ [(ending.code opts, dictionary (report opts m))])
        (if ending.code opts = 0 then worst else ending.code opts)
      rw [List.length_append, List.length_singleton] at hothers
      rcases hothers with ⟨more, hmore, hrows⟩ | ⟨hnone, run, hrun, hfailed⟩
      · refine .inl ⟨(ending.code opts, dictionary (report opts m)) :: more, ?_, .cons ?_ hrows⟩
        · rw [hresult, hmore, List.append_assoc, List.singleton_append, List.map_cons,
            lastCode_cons]
        · subst hopts hending
          exact ⟨m, hmeasured, rfl⟩
      · exact .inr ⟨hresult.trans hnone, run, List.mem_cons_of_mem _ hrun, hfailed⟩

/-- If every run prints, the runner ends up with one row for every number of workers and every size
of the arena, in order: what the run with just these options has measured, every metric under its
name. The exit code is the last one that is not zero. If a run does not print, the runner gives
up. -/
theorem sweep_benchmark {frames : ℤ} (hframes : frames < 2 ^ 31)
    (measure : ℕ → BenchOpts → Ending) (assets trace : Text) (workers arenas : List (Option ℕ))
    (hworkers : ∀ setting ∈ workers, ∀ w ∈ setting, w < 2 ^ 64)
    (harenas : ∀ setting ∈ arenas, ∀ a ∈ setting, 0 < a ∧ a < 2 ^ 64) :
    let ending := fun run : (Option ℕ × Option ℕ) × ℕ ↦
      measure run.2 (meantOpts run.1 frames assets trace)
    let runs := (settings workers arenas).zipIdx
    let result := sweep (benchmark measure) frames assets trace ((settings workers arenas).map
      fun setting ↦ (settingText setting.1, settingText setting.2)) ([], 0)
    ((∀ run ∈ runs, (ending run).measured.isSome) → ∃ rows,
      result = some (rows, ((rows.map Prod.fst).reverse.find? (· ≠ 0)).getD 0) ∧
      List.Forall₂ (fun run row ↦
        let opts := meantOpts run.1 frames assets trace
        row.1 = (ending run).code opts ∧ ∃ m, (ending run).measured = some m ∧
          (∀ entry ∈ report opts m, row.2 entry.1 = some entry.2) ∧
          ∀ key ∉ metricNames, row.2 key = none) runs rows) ∧
    ((∃ run ∈ runs, (ending run).measured = none) → result = none) := by
  intro ending runs result
  have htried : ∀ setting ∈ settings workers arenas, (∀ w ∈ setting.1, w < 2 ^ 64) ∧
      ∀ a ∈ setting.2, 0 < a ∧ a < 2 ^ 64 := by
    intro setting hsetting
    obtain ⟨w, hw, hpair⟩ := List.mem_flatMap.mp hsetting
    obtain ⟨a, ha, rfl⟩ := List.mem_map.mp hpair
    exact ⟨hworkers w hw, harenas a ha⟩
  have hprints : ∀ ⦃run row⦄, IsRow measure frames assets trace run row →
      (ending run).measured.isSome ∧ True := by
    rintro run row ⟨m, hmeasured, -⟩
    exact ⟨Option.isSome_iff_exists.mpr ⟨m, hmeasured⟩, trivial⟩
  rcases sweep_append hframes measure assets trace htried [] 0 with
    ⟨rows, hresult, hrows⟩ | ⟨hresult, hfailed⟩
  · refine ⟨fun _ ↦ ⟨rows, hresult, hrows.imp ?_⟩, ?_⟩
    · rintro run row ⟨m, hmeasured, rfl⟩
      exact ⟨rfl, m, hmeasured,
        fun entry hentry ↦ dictionary_of_mem (nodup_report _ _) hentry,
        fun key hkey ↦ dictionary_eq_none (fst_report _ m ▸ hkey)⟩
    · rintro ⟨run, hrun, hnone⟩
      obtain ⟨hprinted, -⟩ := (List.forall₂_and_left runs rows).mp (hrows.imp hprints)
      have hsome := hprinted run hrun
      rw [hnone] at hsome
      exact absurd hsome (by decide)
  · refine ⟨fun hall ↦ ?_, fun _ ↦ hresult⟩
    obtain ⟨run, hrun, hnone⟩ := hfailed
    have hsome := hall run hrun
    rw [show (ending run).measured = none from hnone] at hsome
    exact absurd hsome (by decide)

/-- What a run may measure. -/
def quick : Measured where
  arenaNsPerAlloc := ascii "4.25"
  poolNsPerAlloc := ascii "6.50"
  independentUs := ascii "310.00"
  dagUs := ascii "12.75"
  counter := 512
  dagFlag := 12
  workers := 1
  frameUs := 9000
  traceEvents := 600
  traceExported := true
  cacheHits := 300000
  cacheMisses := 4
  inferenceOut0 := ascii "0.0"
  inferenceBackend := ascii "simulated_npu"
  inferenceUs := ascii "80.00"
  onnxRuntime := false
  modulesReady := 2
  moduleProperties := 2
  modulesOk := true
  audioSamples := 256
  videoFrames := 9
  telemetryFlushed := 2
  tickOk := 2
  tickUsAvg := ascii "95.50"
  assetsLoaded := false
  plain := by
    have hblank : ∀ text ∈ [ascii "4.25", ascii "6.50", ascii "310.00", ascii "12.75",
        ascii "0.0", ascii "simulated_npu", ascii "80.00", ascii "95.50"],
        ∀ byte ∈ text, isBlank byte = false := by decide +kernel
    exact fun text htext ↦ isPlain_of_not_blank (hblank text htext)

/-- The theorem at two numbers of workers and one size of the arena. -/
theorem sweep_benchmark_two : ∃ rows, sweep (benchmark fun _ _ ↦ .returned quick) 2 [] []
      ((settings [some 1, none] [some 65536]).map
        fun setting ↦ (settingText setting.1, settingText setting.2)) ([], 0) = some (rows, 0) ∧
    rows.map (fun row ↦ row.2 (ascii "arena_bytes")) =
      [some (natText 65536), some (natText 65536)] := by
  obtain ⟨hprinted, -⟩ := sweep_benchmark (show (2 : ℤ) < 2 ^ 31 by decide)
    (fun _ _ ↦ .returned quick) [] [] [some 1, none] [some 65536] (by decide +kernel)
    (by decide +kernel)
  obtain ⟨rows, hsweep, hrows⟩ := hprinted fun _ _ ↦ rfl
  change List.Forall₂ _ [((some 1, some 65536), 0), ((none, some 65536), 1)] rows at hrows
  obtain ⟨first, others, ⟨hcode, m, hm, hfirst, -⟩, hothers, rfl⟩ :=
    List.forall₂_cons_left_iff.mp hrows
  obtain ⟨second, none, ⟨hcode', m', hm', hsecond, -⟩, hnone, rfl⟩ :=
    List.forall₂_cons_left_iff.mp hothers
  obtain rfl := List.forall₂_nil_left_iff.mp hnone
  obtain rfl := Option.some.inj hm
  obtain rfl := Option.some.inj hm'
  have hzero : first.1 = 0 ∧ second.1 = 0 := ⟨hcode, hcode'⟩
  have harena : ∀ opts : BenchOpts,
      (ascii "arena_bytes", natText opts.arenaBytes) ∈ report opts quick :=
    fun opts ↦ List.mem_of_getElem? (show (report opts quick)[7]? = some _ from rfl)
  refine ⟨[first, second], hsweep.trans (by simp [hzero]), ?_⟩
  have hshown := hfirst _ (harena _)
  have hshown' := hsecond _ (harena _)
  dsimp only at hshown hshown'
  rw [List.map_cons, List.map_cons, List.map_nil, hshown, hshown']
  rfl

end GameEngine.Bench
