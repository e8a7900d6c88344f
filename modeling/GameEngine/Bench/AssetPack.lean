import GameEngine.Library.IntegerText
import GameEngine.Library.RowMajor
import GameEngine.Core.Profiler
import GameEngine.Multimedia.AudioPipeline
import GameEngine.Multimedia.VideoDecoder

/-!
# Packed assets

`tools/asset_pack.py` writes a directory with a tone, a clip of I420 frames and a manifest, and
`load_assets` of the benchmark reads it. A directory is what its files contain. The samples of the
tone are a parameter, since they come from a sine; the arguments of the tool are integers of any
size.

`pack_load` says what the benchmark has in its hands after it has loaded what the tool has written:
the samples, the frames, the sizes, and the rate and the number of channels if their types hold
them. It refuses the directory exactly if there is no frame.
-/

set_option autoImplicit false
set_option relaxedAutoImplicit false

namespace GameEngine.Bench

open GameEngine.Library GameEngine.Core GameEngine.Multimedia
open MachineWord RecordStream

/-- What the files of a directory contain. -/
abbrev Directory := Text → Option Text

/-! ### The tool -/

/-- The arguments of `asset_pack.py`. -/
structure PackArgs where
  width : ℤ
  height : ℤ
  frames : ℤ
  rate : ℤ
  channels : ℤ
  samples : ℤ

/-- A sample in the range of `struct.pack("<h", ..)`. -/
def clampSample (sample : ℤ) : ℤ := max (-32767) (min 32767 sample)

/-- `struct.pack("<h", ..)`. -/
def packSample (sample : ℤ) : Text := toBytes 2 (sample % 2 ^ 16).toNat

/-- The integers from which on the conversion to a floating-point number fails. -/
def floatLimit : ℕ := 2 ^ 970 * (2 ^ 54 - 1)

/-- `write_pcm`, unless it stops with an exception: the rate is converted to a floating-point number
and divides. `tone` is the sample of a rate and an index. -/
def writePcm (tone : ℤ → ℕ → ℤ) (rate channels samples : ℤ) : Option Text :=
  if 0 < samples ∧ (rate = 0 ∨ floatLimit ≤ rate.natAbs) then none
  else some ((List.range samples.toNat).flatMap fun i ↦
    (List.replicate channels.toNat (packSample (clampSample (tone rate i)))).flatten)

/-- A frame of `write_i420`. -/
def packedFrame (width height f : ℕ) : Text :=
  let uvSize := width * height / 4
  let t := f * 3 % 256
  let y := (List.range height).flatMap fun y ↦
    (List.range width).map fun x ↦ UInt8.ofNat ((x + y + t) % 256)
  let u := List.replicate uvSize 128
  let v := (List.range (height / 2)).flatMap fun _ ↦
    (List.range (width / 2)).map fun x ↦ UInt8.ofNat (64 + (x + t) % 64)
  y ++ u ++ if v.length = uvSize then v else (v ++ List.replicate uvSize 0).take uvSize

/-- `write_i420`. -/
def writeI420 (width height : ℕ) (frames : ℤ) : Text :=
  (List.range frames.toNat).flatMap (packedFrame width height)

/-- A line of the manifest. -/
def manifestLine (key : String) (value : ℤ) : Text := ascii key ++ 61 :: intText value

/-- The lines of the manifest. -/
def manifestLines (args : PackArgs) : List Text :=
  [manifestLine "sample_rate" args.rate, manifestLine "channels" args.channels,
    manifestLine "width" args.width, manifestLine "height" args.height,
    manifestLine "frames" args.frames, ascii "audio=tone.s16le", ascii "video=clip.i420", []]

/-- `main` of the tool on a directory: its exit code and the directory after it, unless it stops
with an exception. -/
def pack (tone : ℤ → ℕ → ℤ) (args : PackArgs) (directory : Directory) : Option (ℕ × Directory) :=
  if args.width < 2 ∨ args.height < 2 ∨ args.width % 2 = 1 ∨ args.height % 2 = 1 then
    some (1, directory)
  else (writePcm tone args.rate args.channels args.samples).map fun pcm ↦
    let clip := writeI420 args.width.toNat args.height.toNat args.frames
    let manifest := List.intercalate [10] (manifestLines args)
    (0, Function.update (Function.update (Function.update directory (ascii "tone.s16le") (some pcm))
      (ascii "clip.i420") (some clip)) (ascii "manifest.txt") (some manifest))

/-! ### The benchmark -/

/-- `PackedAssets`. -/
structure PackedAssets where
  pcm : List Int16
  i420 : List UInt8
  sampleRate : ℕ
  channels : ℕ
  width : ℕ
  height : ℕ
  frameCount : ℕ

/-- `PackedAssets{}`. -/
def PackedAssets.new : PackedAssets := ⟨[], [], 48000, 1, 64, 48, 0⟩

/-- `parse_size`. -/
def parseSize : Option Text → ℕ
  | none => 0
  | some s => if Telemetry.cString s = [] then 0 else strtoull (Telemetry.cString s)

/-- The lines that `std::getline` reads. -/
def getLines (text : Text) : List Text :=
  let lines := text.splitOn 10
  if lines.getLast? = some [] then lines.dropLast else lines

/-- What has been read of a manifest. -/
structure Manifest where
  assets : PackedAssets
  audioName : Text
  videoName : Text

/-- Takes in the value of a key. -/
def Manifest.set (manifest : Manifest) (key val : Text) : Manifest :=
  if key = ascii "sample_rate" then
    { manifest with assets.sampleRate := parseSize (some val) % word32 }
  else if key = ascii "channels" then
    { manifest with assets.channels := parseSize (some val) % 2 ^ 16 }
  else if key = ascii "width" then { manifest with assets.width := parseSize (some val) }
  else if key = ascii "height" then { manifest with assets.height := parseSize (some val) }
  else if key = ascii "frames" then { manifest with assets.frameCount := parseSize (some val) }
  else if key = ascii "audio" then { manifest with audioName := val }
  else if key = ascii "video" then { manifest with videoName := val }
  else manifest

/-- One line of the manifest. -/
def Manifest.readLine (manifest : Manifest) (line : Text) : Manifest :=
  if line = [] ∨ line.head? = some 35 then manifest
  else if 61 ∉ line then manifest
  else
    let key := line.takeWhile (· ≠ 61)
    manifest.set key (line.drop (key.length + 1))

/-- The samples in memory that is filled with bytes. -/
def samplesOf : Text → List Int16
  | low :: high :: rest => (UInt16.ofNat (ofBytes [low, high])).toInt16 :: samplesOf rest
  | _ => []

/-- `load_assets`. A null pointer is no directory name; `directory` has the files under the name. -/
def loadAssets (dir : Option Text) (directory : Directory) (assets : PackedAssets) :
    PackedAssets × Bool :=
  if dir.all fun name ↦ Telemetry.cString name = [] then (assets, false)
  else match directory (ascii "manifest.txt") with
  | none => (assets, false)
  | some text =>
    let manifest := (getLines text).foldl Manifest.readLine
      ⟨assets, ascii "tone.s16le", ascii "clip.i420"⟩
    let assets := manifest.assets
    match directory (Telemetry.cString manifest.audioName) with
    | none => (assets, false)
    | some bytes =>
      if bytes.length % 2 ≠ 0 then (assets, false)
      else
        let assets := { assets with pcm := samplesOf bytes }
        match directory (Telemetry.cString manifest.videoName) with
        | none => (assets, false)
        | some bytes =>
          let assets := { assets with i420 := bytes }
          let fb := i420Size assets.width assets.height
          if fb = 0 ∨ bytes.length < fb then (assets, false)
          else if assets.frameCount = 0 then
            ({ assets with frameCount := bytes.length / fb }, true)
          else (assets, true)

/-! ### The manifest is read back -/

/-- A text that can be a key of the manifest. -/
def IsKey (key : Text) : Prop := key ≠ [] ∧ key.head? ≠ some 35 ∧ 61 ∉ key

instance (key : Text) : Decidable (IsKey key) := inferInstanceAs (Decidable (_ ∧ _))

/-- A key and a value are taken in. -/
theorem readLine_eq (manifest : Manifest) {key : Text} (hkey : IsKey key) (val : Text) :
    manifest.readLine (key ++ 61 :: val) = manifest.set key val := by
  obtain ⟨hne, hcomment, hequals⟩ := hkey
  have htake : (key ++ 61 :: val).takeWhile (· ≠ 61) = key := by
    rw [List.takeWhile_append_of_pos fun byte hbyte ↦ by
      simpa using fun heq : byte = 61 ↦ hequals (heq ▸ hbyte)]
    simp
  have hhead : (key ++ 61 :: val).head? ≠ some 35 := by
    rwa [List.head?_append_of_ne_nil _ hne]
  have hdrop : (key ++ 61 :: val).drop (key.length + 1) = val := by
    rw [← List.drop_drop, List.drop_left]
    rfl
  have hread : ¬(key ++ 61 :: val = [] ∨ (key ++ 61 :: val).head? = some 35) :=
    not_or.mpr ⟨List.append_ne_nil_of_left_ne_nil hne _, hhead⟩
  rw [Manifest.readLine, if_neg hread, if_neg (by simp)]
  dsimp only
  rw [htake, hdrop]

/-- The bytes of a printed integer. -/
theorem mem_intText {value : ℤ} {byte : UInt8} (hbyte : byte ∈ intText value) :
    byte ≠ 0 ∧ byte ≠ 10 := by
  have hdigit : isDigit byte = true ∨ byte = 45 := by
    unfold intText at hbyte
    split_ifs at hbyte
    · rcases List.mem_cons.mp hbyte with heq | hdigit
      · exact .inr heq
      · exact .inl (isDigit_of_mem_natText hdigit)
    · exact .inl (isDigit_of_mem_natText hbyte)
  rcases hdigit with hdigit | rfl
  · refine ⟨?_, ?_⟩ <;> rintro rfl <;> exact absurd hdigit (by decide)
  · decide

theorem parseSize_intText (value : ℤ) :
    parseSize (some (intText value)) = strtoull (intText value) := by
  have hstring : Telemetry.cString (intText value) = intText value :=
    List.takeWhile_eq_self_iff.mpr fun byte hbyte ↦ by simpa using (mem_intText hbyte).1
  have hne : intText value ≠ [] := by
    unfold intText
    split_ifs
    · exact List.cons_ne_nil _ _
    · exact natText_ne_nil _
  rw [parseSize, hstring, if_neg hne]

theorem newline_not_mem_manifestLine {key : String} (hkey : 10 ∉ ascii key) (value : ℤ) :
    10 ∉ manifestLine key value := by
  intro hmem
  rcases List.mem_append.mp hmem with hmem | hmem
  · exact hkey hmem
  · rcases List.mem_cons.mp hmem with heq | hmem
    · exact absurd heq (by decide)
    · exact (mem_intText hmem).2 rfl

/-- The lines that are read are those that were written. -/
theorem getLines_manifest (args : PackArgs) :
    getLines (List.intercalate [10] (manifestLines args)) = (manifestLines args).dropLast := by
  have hlines : ∀ line ∈ manifestLines args, 10 ∉ line := by
    simp only [manifestLines, List.forall_mem_cons]
    exact ⟨newline_not_mem_manifestLine (by decide) _, newline_not_mem_manifestLine (by decide) _,
      newline_not_mem_manifestLine (by decide) _, newline_not_mem_manifestLine (by decide) _,
      newline_not_mem_manifestLine (by decide) _, by decide, by decide, by simp, by simp⟩
  rw [getLines, List.splitOn_intercalate 10 hlines (by simp [manifestLines])]
  exact if_pos rfl

/-- What is read of the manifest that was written. -/
theorem readManifest (args : PackArgs) :
    (getLines (List.intercalate [10] (manifestLines args))).foldl Manifest.readLine
        ⟨.new, ascii "tone.s16le", ascii "clip.i420"⟩ =
      ⟨⟨[], [], strtoull (intText args.rate) % word32, strtoull (intText args.channels) % 2 ^ 16,
        strtoull (intText args.width), strtoull (intText args.height),
        strtoull (intText args.frames)⟩, ascii "tone.s16le", ascii "clip.i420"⟩ := by
  have haudio : ascii "audio=tone.s16le" = ascii "audio" ++ 61 :: ascii "tone.s16le" := by decide
  have hvideo : ascii "video=clip.i420" = ascii "video" ++ 61 :: ascii "clip.i420" := by decide
  rw [getLines_manifest, manifestLines, haudio, hvideo]
  simp only [List.dropLast_cons_cons, List.dropLast_singleton, List.foldl_cons, List.foldl_nil,
    manifestLine]
  rw [readLine_eq _ (by decide), readLine_eq _ (by decide), readLine_eq _ (by decide),
    readLine_eq _ (by decide), readLine_eq _ (by decide), readLine_eq _ (by decide),
    readLine_eq _ (by decide)]
  simp only [← parseSize_intText]
  rfl

/-! ### The samples are read back -/

theorem samplesOf_packSample (sample : ℤ) (rest : Text) :
    samplesOf (packSample sample ++ rest) = Int16.ofInt sample :: samplesOf rest := by
  have hvalue : ofBytes (packSample sample) = (sample % 2 ^ 16).toNat := by
    rw [packSample, ofBytes_toBytes]
    exact Nat.mod_eq_of_lt (by omega)
  have hlt : sample % 65536 < 65536 := Int.emod_lt_of_pos sample (by norm_num)
  have hword : (UInt16.ofNat (sample % 2 ^ 16).toNat).toInt16 = Int16.ofInt sample := by
    rw [← Int16.toBitVec_inj, ← BitVec.toNat_inj]
    simpa using hlt
  have hunfold : samplesOf (packSample sample ++ rest) =
      (UInt16.ofNat (ofBytes (packSample sample))).toInt16 :: samplesOf rest := rfl
  rw [hunfold, hvalue, hword]

theorem samplesOf_flatMap (samples : List ℤ) :
    samplesOf (samples.flatMap packSample) = samples.map Int16.ofInt := by
  induction samples with
  | nil => rfl
  | cons sample samples ih =>
    rw [List.flatMap_cons, samplesOf_packSample, ih, List.map_cons]

/-- The samples of a tone, each one in every channel. -/
def toneSamples (tone : ℤ → ℕ → ℤ) (rate channels samples : ℤ) : List ℤ :=
  (List.range samples.toNat).flatMap fun i ↦
    List.replicate channels.toNat (clampSample (tone rate i))

theorem writePcm_eq_some {tone : ℤ → ℕ → ℤ} {rate channels samples : ℤ} {pcm : Text}
    (hpcm : writePcm tone rate channels samples = some pcm) :
    pcm = (toneSamples tone rate channels samples).flatMap packSample := by
  rw [writePcm] at hpcm
  split_ifs at hpcm
  rw [← Option.some.inj hpcm, toneSamples, List.flatMap_assoc]
  refine List.flatMap_congr fun i _ ↦ ?_
  rw [List.flatMap_replicate]

/-! ### The clip -/

/-- The sizes that the tool accepts. -/
def EvenSize (width height : ℕ) : Prop := 2 ∣ width ∧ 2 ∣ height

instance (width height : ℕ) : Decidable (EvenSize width height) :=
  inferInstanceAs (Decidable (_ ∧ _))

/-- The chroma plane of an even size needs no padding. -/
theorem length_packedFrame {width height : ℕ} (heven : EvenSize width height) (f : ℕ) :
    (packedFrame width height f).length = width * height + width * height / 2 := by
  obtain ⟨⟨a, rfl⟩, b, rfl⟩ := heven
  have hquarter : 2 * a * (2 * b) / 4 = a * b := by
    rw [show 2 * a * (2 * b) = 4 * (a * b) by ring]
    exact Nat.mul_div_cancel_left _ (by norm_num)
  have hhalf : 2 * a * (2 * b) / 2 = a * b + a * b := by
    rw [show 2 * a * (2 * b) = 2 * (a * b + a * b) by ring]
    exact Nat.mul_div_cancel_left _ (by norm_num)
  have hchroma := RowMajor.length_plane b a fun _ x ↦ UInt8.ofNat (64 + (x + f * 3 % 256) % 64)
  have hluma := RowMajor.length_plane (2 * b) (2 * a) fun y x ↦
    UInt8.ofNat ((x + y + f * 3 % 256) % 256)
  rw [RowMajor.plane, Nat.mul_comm b] at hchroma
  rw [RowMajor.plane, Nat.mul_comm (2 * b)] at hluma
  rw [packedFrame, hquarter, Nat.mul_div_cancel_left a two_pos, Nat.mul_div_cancel_left b two_pos,
    if_pos hchroma, List.length_append, List.length_append, hluma, List.length_replicate, hchroma,
    hhalf, Nat.add_assoc]

theorem length_writeI420 {width height : ℕ} (heven : EvenSize width height) (frames : ℤ) :
    (writeI420 width height frames).length =
      frames.toNat * (width * height + width * height / 2) := by
  rw [writeI420, length_flatMap_of_length (length_packedFrame heven), List.length_range]

/-! ### Loading what was packed -/

/-- What has been packed. -/
def PackArgs.loaded (args : PackArgs) (tone : ℤ → ℕ → ℤ) : PackedAssets where
  pcm := (toneSamples tone args.rate args.channels args.samples).map Int16.ofInt
  i420 := writeI420 args.width.toNat args.height.toNat args.frames
  sampleRate := args.rate.toNat
  channels := args.channels.toNat
  width := args.width.toNat
  height := args.height.toNat
  frameCount := args.frames.toNat

/-- What a successful run of the tool leaves. -/
theorem pack_eq_some {tone : ℤ → ℕ → ℤ} {args : PackArgs} {directory directory' : Directory}
    (hpack : pack tone args directory = some (0, directory')) :
    2 ≤ args.width ∧ 2 ≤ args.height ∧ EvenSize args.width.toNat args.height.toNat ∧
      directory' (ascii "tone.s16le") =
        some ((toneSamples tone args.rate args.channels args.samples).flatMap packSample) ∧
      directory' (ascii "clip.i420") =
        some (writeI420 args.width.toNat args.height.toNat args.frames) ∧
      directory' (ascii "manifest.txt") = some (List.intercalate [10] (manifestLines args)) := by
  rw [pack] at hpack
  split_ifs at hpack with hsize
  · cases hpack
  obtain ⟨pcm, hpcm, hresult⟩ := Option.map_eq_some_iff.mp hpack
  have hdirectory := congrArg Prod.snd hresult
  dsimp only at hdirectory
  subst hdirectory
  have htone := writePcm_eq_some hpcm
  push Not at hsize
  refine ⟨hsize.1, hsize.2.1, ⟨by omega, by omega⟩, ?_, ?_, ?_⟩
  · rw [Function.update_of_ne (by decide), Function.update_of_ne (by decide),
      Function.update_self, htone]
  · rw [Function.update_of_ne (by decide), Function.update_self]
  · rw [Function.update_self]

theorem strtoull_intText_of_lt {value : ℤ} (hnonneg : 0 ≤ value) (hlt : value < 2 ^ 64) :
    strtoull (intText value) = value.toNat := by
  have hread := strtoull_intText (show value.natAbs < 2 ^ 64 by omega)
  rw [Int.emod_eq_of_lt hnonneg hlt] at hread
  omega

/-- The length of the clip bounds its sizes. -/
theorem lt_of_length_writeI420 {width height : ℕ} (hwidth : 2 ≤ width) (hheight : 2 ≤ height)
    (heven : EvenSize width height) {frames : ℤ} (hframes : 0 < frames)
    (hclip : (writeI420 width height frames).length < 2 ^ 63) :
    width < 2 ^ 63 ∧ height < 2 ^ 63 ∧ width * height + width * height / 2 < 2 ^ 63 ∧
      frames < 2 ^ 63 := by
  rw [length_writeI420 heven] at hclip
  have hwide : width ≤ width * height := Nat.le_mul_of_pos_right _ (by omega)
  have hhigh : height ≤ width * height := Nat.le_mul_of_pos_left _ (by omega)
  have hone : width * height + width * height / 2 ≤
      frames.toNat * (width * height + width * height / 2) :=
    Nat.le_mul_of_pos_left _ (by omega)
  have hframe : frames.toNat ≤ frames.toNat * (width * height + width * height / 2) :=
    Nat.le_mul_of_pos_right _ (by omega)
  omega

/-- What the benchmark does with the files that the tool has written. -/
theorem loadAssets_eq {tone : ℤ → ℕ → ℤ} {args : PackArgs} {directory directory' : Directory}
    (hpack : pack tone args directory = some (0, directory')) {name : Text}
    (hname : Telemetry.cString name ≠ []) :
    let clip := writeI420 args.width.toNat args.height.toNat args.frames
    let assets : PackedAssets :=
      ⟨(toneSamples tone args.rate args.channels args.samples).map Int16.ofInt, clip,
        strtoull (intText args.rate) % word32, strtoull (intText args.channels) % 2 ^ 16,
        strtoull (intText args.width), strtoull (intText args.height),
        strtoull (intText args.frames)⟩
    let fb := i420Size assets.width assets.height
    loadAssets (some name) directory' .new =
      if fb = 0 ∨ clip.length < fb then (assets, false)
      else if assets.frameCount = 0 then ({ assets with frameCount := clip.length / fb }, true)
      else (assets, true) := by
  obtain ⟨-, -, -, htone, hvideo, hmanifest⟩ := pack_eq_some hpack
  have hpcm : ((toneSamples tone args.rate args.channels args.samples).flatMap
      packSample).length % 2 = 0 := by
    have hlength : ∀ sample, (packSample sample).length = 2 := fun sample ↦ length_toBytes _ _
    rw [length_flatMap_of_length hlength, Nat.mul_mod_left]
  have haudioName : Telemetry.cString (ascii "tone.s16le") = ascii "tone.s16le" := by decide
  have hvideoName : Telemetry.cString (ascii "clip.i420") = ascii "clip.i420" := by decide
  rw [loadAssets, if_neg (by simpa using hname), hmanifest]
  dsimp only
  rw [readManifest]
  dsimp only
  rw [haudioName, hvideoName, htone]
  dsimp only
  rw [if_neg (by rw [hpcm]; decide), hvideo, samplesOf_flatMap]

/-- The benchmark gets what the tool has packed, with the rate and the number of channels cut to
their types. -/
theorem loadAssets_packed {tone : ℤ → ℕ → ℤ} {args : PackArgs} {directory directory' : Directory}
    (hpack : pack tone args directory = some (0, directory')) (hframes : 0 < args.frames)
    (hclip : (writeI420 args.width.toNat args.height.toNat args.frames).length < 2 ^ 63)
    {name : Text} (hname : Telemetry.cString name ≠ []) :
    loadAssets (some name) directory' .new =
      ({ args.loaded tone with
          sampleRate := strtoull (intText args.rate) % word32
          channels := strtoull (intText args.channels) % 2 ^ 16 }, true) := by
  obtain ⟨hwidth, hheight, heven, -⟩ := pack_eq_some hpack
  obtain ⟨hwidth', hheight', hframe, hcount⟩ :=
    lt_of_length_writeI420 (by omega) (by omega) heven hframes hclip
  have hlength := length_writeI420 heven args.frames
  have hsize : i420Size args.width.toNat args.height.toNat =
      args.width.toNat * args.height.toNat + args.width.toNat * args.height.toNat / 2 :=
    VideoDecoderStub.i420Size_eq (by simp only [word64]; omega)
  have hpos : 0 < args.width.toNat * args.height.toNat := Nat.mul_pos (by omega) (by omega)
  have hone := Nat.le_mul_of_pos_left (args.width.toNat * args.height.toNat +
    args.width.toNat * args.height.toNat / 2) (show 0 < args.frames.toNat by omega)
  have hreadWidth : strtoull (intText args.width) = args.width.toNat :=
    strtoull_intText_of_lt (by omega) (by omega)
  have hreadHeight : strtoull (intText args.height) = args.height.toNat :=
    strtoull_intText_of_lt (by omega) (by omega)
  have hreadFrames : strtoull (intText args.frames) = args.frames.toNat :=
    strtoull_intText_of_lt (by omega) (by omega)
  rw [loadAssets_eq hpack hname]
  dsimp only
  rw [hreadWidth, hreadHeight, hreadFrames, hsize, if_neg (by omega), if_neg (by omega)]
  rfl

/-- The benchmark gets what the tool has packed, as far as the rate and the number of channels are
in the range of their types, and refuses a clip without a frame. -/
theorem pack_load {tone : ℤ → ℕ → ℤ} {args : PackArgs} {directory directory' : Directory}
    (hpack : pack tone args directory = some (0, directory'))
    (hclip : (writeI420 args.width.toNat args.height.toNat args.frames).length < 2 ^ 63)
    {name : Text} (hname : Telemetry.cString name ≠ []) :
    (loadAssets (some name) directory' .new).2 = decide (0 < args.frames) ∧
      (0 < args.frames → ∃ rate channels,
        (loadAssets (some name) directory' .new).1 =
          { args.loaded tone with sampleRate := rate, channels := channels } ∧
        (0 ≤ args.rate → args.rate < 2 ^ 32 → rate = args.rate.toNat) ∧
        (0 ≤ args.channels → args.channels < 2 ^ 16 → channels = args.channels.toNat)) := by
  by_cases hframes : 0 < args.frames
  · rw [loadAssets_packed hpack hframes hclip hname]
    refine ⟨(decide_eq_true hframes).symm, fun _ ↦ ⟨_, _, rfl, fun hrate hlt ↦ ?_,
      fun hchannels hlt ↦ ?_⟩⟩
    · rw [strtoull_intText_of_lt hrate (by omega)]
      exact Nat.mod_eq_of_lt (by unfold word32; omega)
    · rw [strtoull_intText_of_lt hchannels (by omega)]
      exact Nat.mod_eq_of_lt (by omega)
  · have hnil : writeI420 args.width.toNat args.height.toNat args.frames = [] := by
      rw [writeI420, Int.toNat_of_nonpos (not_lt.mp hframes)]
      rfl
    rw [loadAssets_eq hpack hname]
    dsimp only
    rw [hnil, if_pos (by simp only [List.length_nil]; omega)]
    exact ⟨(decide_eq_false hframes).symm, fun hpos ↦ absurd hpos hframes⟩

/-- Two frames and a stereo sample. -/
def stereoArgs : PackArgs := ⟨2, 2, 2, 48000, 2, 1⟩

/-- What the tool writes for them. -/
def stereoDirectory : Directory :=
  Function.update (Function.update (Function.update (fun _ ↦ none) (ascii "tone.s16le")
    (some [44, 1, 44, 1])) (ascii "clip.i420") (some (writeI420 2 2 2)))
    (ascii "manifest.txt") (some (List.intercalate [10] (manifestLines stereoArgs)))

theorem pack_stereo :
    pack (fun _ _ ↦ 300) stereoArgs (fun _ ↦ none) = some (0, stereoDirectory) := by
  have hrate : 48000 < floatLimit := by decide +kernel
  have hpcm : writePcm (fun _ _ ↦ 300) stereoArgs.rate stereoArgs.channels stereoArgs.samples =
      some [44, 1, 44, 1] := by
    have hdefined : ¬(0 < stereoArgs.samples ∧
        (stereoArgs.rate = 0 ∨ floatLimit ≤ stereoArgs.rate.natAbs)) :=
      fun hfails ↦ hfails.2.elim (by decide) (Nat.not_le.mpr hrate)
    rw [writePcm, if_neg hdefined]
    rfl
  rw [pack, if_neg (by decide), hpcm]
  rfl

/-- The benchmark loads them. -/
theorem pack_load_stereo :
    (loadAssets (some (ascii "assets")) stereoDirectory .new).2 = true ∧
      (loadAssets (some (ascii "assets")) stereoDirectory .new).1 =
        stereoArgs.loaded fun _ _ ↦ 300 := by
  have hload := pack_load pack_stereo (by decide)
    (show Telemetry.cString (ascii "assets") ≠ [] by decide)
  obtain ⟨rate, channels, hassets, hrate, hchannels⟩ := hload.2 (by decide)
  rw [hrate (by decide) (by decide), hchannels (by decide) (by decide)] at hassets
  exact ⟨hload.1, hassets⟩

end GameEngine.Bench
