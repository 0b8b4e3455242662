import Sotabots.Led.Strip
/-!
# The LED controller

The sketch on the board beside the robot.  Each pass of `loop` reads up to five
input pins, plays the animation of the first one that is high and prints its
name; nothing is read while an animation runs.  A run of the controller is a
list of light shows: which picture it leaves, what it prints and how long it
waits follow from that list alone.
-/

namespace Sotabots.Led

open Machine

/-! ## Animations

`color` is the library's `Color`, `n` what its `numPixels` gives: the length of the
strip.  An `int` of the board has sixteen bits, so the arithmetic on `uint16_t` is
that of the type. -/

section Animations

variable (color : UInt8 → UInt8 → UInt8 → UInt32) (n : UInt16)

/-- `NUM_LIGHTS`, and the length of the strip. -/
def numLights : UInt16 := 20

/-- `Red`, `Blue` and `Yellow`: set a pixel and show the strip, pixel by pixel. -/
def fill (high : UInt32) : List Call := painting numLights.toNat (fun _ => high) [.showStrip]

def red : List Call := fill (color 225 0 0)

def blue : List Call := fill (color 0 0 225)

def yellow : List Call := fill (color 225 225 0)

def colorWipe (c : UInt32) (wait : UInt8) : List Call :=
  painting n.toNat (fun _ => c) [.showStrip, .delay wait.toNat]

def wheel (wheelPos : UInt8) : UInt32 :=
  -- the arguments are computed as `int` and cut to a byte, which is arithmetic on bytes
  if wheelPos < 85 then
    color (wheelPos * 3) (255 - wheelPos * 3) 0
  else if wheelPos < 170 then
    let wheelPos := wheelPos - 85
    color (255 - wheelPos * 3) 0 (wheelPos * 3)
  else
    let wheelPos := wheelPos - 170
    color 0 (wheelPos * 3) (255 - wheelPos * 3)

/-- `rainbow`, up to the mask on the wheel position. -/
def maskedRainbow (mask : UInt16) (wait : UInt8) : List Call :=
  (List.range 256).flatMap fun j =>
    shownPicture n (fun i => wheel color ((i + UInt16.ofNat j) &&& mask).toUInt8) wait.toNat

def rainbow : UInt8 → List Call := maskedRainbow color n 225

/-- The stand-alone sketch `GROOVY_MODE` masks with 255. -/
def groovyModeRainbow : UInt8 → List Call := maskedRainbow color n 255

def rainbowCycle (wait : UInt8) : List Call :=
  (List.range (256 * 5)).flatMap fun j =>
    shownPicture n (fun i => wheel color ((i * 256 / n + UInt16.ofNat j) &&& 255).toUInt8)
      wait.toNat

end Animations

/-! ## The loop -/

/-- What `digitalRead` gives for each pin, in the order the pins are asked.  A pin
that is not asked has a value nobody looks at. -/
structure PinReads where
  pin10 : Bool
  pin9 : Bool
  pin8 : Bool
  pin3 : Bool
  pin12 : Bool
  deriving DecidableEq, Repr

section Loop

variable (color : UInt8 → UInt8 → UInt8 → UInt32)

def setup : List Call := [.showStrip]

def loop (p : PinReads) : List Call :=
  if p.pin10 then red color ++ [.println "Red"]
  else if p.pin9 then blue color ++ [.println "Blue"]
  else if p.pin8 then yellow color ++ [.println "Yellow"]
  else if p.pin3 then
    colorWipe numLights (color 225 0 0) 50
      ++ colorWipe numLights (color 225 0 0) 50
      ++ colorWipe numLights (color 225 225 225) 50
      ++ colorWipe numLights (color 225 225 225) 50
      ++ colorWipe numLights (color 0 0 225) 50
      ++ colorWipe numLights (color 0 0 225) 50
      ++ [.println "'MURICA"]
  else if p.pin12 then
    rainbow color numLights 20 ++ rainbowCycle color numLights 20 ++ [.println "GrOoVy"]
  else []

def sketch (passes : List PinReads) : List Call := setup ++ passes.flatMap (loop color)

end Loop

/-! ## A pass as a light show -/

inductive LightShow
  | red | blue | yellow | murica | groovy
  deriving DecidableEq, Repr

/-- The pins are asked in this order, and the first that is high decides. -/
def PinReads.selected (p : PinReads) : Option LightShow :=
  if p.pin10 then some .red
  else if p.pin9 then some .blue
  else if p.pin8 then some .yellow
  else if p.pin3 then some .murica
  else if p.pin12 then some .groovy
  else none

def LightShow.pins (m : LightShow) : PinReads where
  pin10 := m = .red
  pin9 := m = .blue
  pin8 := m = .yellow
  pin3 := m = .murica
  pin12 := m = .groovy

def LightShow.calls (color : UInt8 → UInt8 → UInt8 → UInt32) (m : LightShow) : List Call :=
  loop color m.pins

theorem loop_of_selected {color : UInt8 → UInt8 → UInt8 → UInt32} {p : PinReads} {m : LightShow}
    (h : p.selected = some m) : loop color p = m.calls color := by
  unfold PinReads.selected at h
  rw [loop]
  split_ifs at h ⊢ <;> obtain rfl := Option.some.inj h <;> rfl

theorem loop_of_not_selected {color : UInt8 → UInt8 → UInt8 → UInt32} {p : PinReads}
    (h : p.selected = none) : loop color p = [] := by
  unfold PinReads.selected at h
  unfold loop
  split_ifs at h ⊢
  rfl

def wheelColor (wheelPos : UInt8) : Rgb :=
  if wheelPos < 85 then ⟨wheelPos * 3, 255 - wheelPos * 3, 0⟩
  else if wheelPos < 170 then ⟨255 - (wheelPos - 85) * 3, 0, (wheelPos - 85) * 3⟩
  else ⟨0, (wheelPos - 170) * 3, 255 - (wheelPos - 170) * 3⟩

theorem wheel_eq (lib : NeoPixel) (wheelPos : UInt8) :
    wheel lib.color wheelPos = lib.rgb (wheelColor wheelPos) := by
  unfold wheel wheelColor
  split_ifs <;> rfl

def rainbowPicture (mask : UInt16) (j : ℕ) (i : UInt16) : Rgb :=
  wheelColor ((i + UInt16.ofNat j) &&& mask).toUInt8

def cyclePicture (n : UInt16) (j : ℕ) (i : UInt16) : Rgb :=
  wheelColor ((i * 256 / n + UInt16.ofNat j) &&& 255).toUInt8

namespace LightShow

def text : LightShow → String
  | red => "Red"
  | blue => "Blue"
  | yellow => "Yellow"
  | murica => "'MURICA"
  | groovy => "GrOoVy"

def final : LightShow → UInt16 → Rgb
  | red => fun _ => ⟨225, 0, 0⟩
  | blue => fun _ => ⟨0, 0, 225⟩
  | yellow => fun _ => ⟨225, 225, 0⟩
  | murica => fun _ => ⟨0, 0, 225⟩
  | groovy => cyclePicture numLights 1279

def ms : LightShow → ℕ
  | red | blue | yellow => 0
  | murica => 6000
  | groovy => 30720

def frames : LightShow → ℕ
  | red | blue | yellow => 20
  | murica => 120
  | groovy => 1536

end LightShow

/-- Whatever was there before: the calls end with the picture `final`, print the
lines, wait `ms` milliseconds and show the strip `m` times. -/
structure Plays (lib : NeoPixel) (n : UInt16) (calls : List Call) (final : UInt16 → Rgb)
    (lines : List String) (ms m : ℕ) : Prop where
  pictures : ∀ s, lib.Pictures n (run lib.perform s calls) final
  printed : printed calls = lines
  waited : waited calls = ms
  shows : shows calls = m

section Plays

variable {lib : NeoPixel} {n : UInt16} {calls calls' : List Call} {final final' : UInt16 → Rgb}
  {lines lines' : List String} {ms ms' m m' : ℕ}

theorem Plays.trans (h : Plays lib n calls final lines ms m)
    (h' : Plays lib n calls' final' lines' ms' m') :
    Plays lib n (calls ++ calls') final' (lines ++ lines') (ms + ms') (m + m') where
  pictures s := by
    rw [run_append]
    exact h'.pictures _
  printed := by rw [printed_append, h.printed, h'.printed]
  waited := by rw [waited_append, h.waited, h'.waited]
  shows := by rw [shows_append, h.shows, h'.shows]

theorem Plays.println (h : Plays lib n calls final lines ms m) (text : String) :
    Plays lib n (calls ++ [.println text]) final (lines ++ [text]) ms m where
  pictures s := by
    rw [run_append]
    exact h.pictures s
  printed := by
    rw [printed_append, h.printed]
    rfl
  waited := by
    rw [waited_append, h.waited]
    rfl
  shows := by
    rw [shows_append, h.shows]
    rfl

theorem plays_painting (hlib : lib.Lawful n) (c : Rgb) {after : List Call}
    (hafter : ∀ c ∈ after, c.Quiet) (hprinted : printed after = []) :
    Plays lib n (painting n.toNat (fun _ => lib.rgb c) after) (fun _ => c) []
      (n.toNat * waited after) (n.toNat * shows after) := by
  have hcounts := loop_counts
    (fun i => .setPixelColor (UInt16.ofNat i) (lib.rgb c) :: after)
    (fun _ => hprinted) (fun _ => Nat.zero_add (waited after)) (fun _ => rfl) n.toNat
  exact ⟨fun s => pictures_painting hlib hafter, hcounts.1, hcounts.2.1, hcounts.2.2⟩

theorem shownPicture_counts (n : UInt16) (color : UInt16 → UInt32) (wait : ℕ) :
    printed (shownPicture n color wait) = [] ∧ waited (shownPicture n color wait) = wait ∧
      shows (shownPicture n color wait) = 1 := by
  obtain ⟨hprinted, hwaited, hshows⟩ := loop_counts
    (fun i => [.setPixelColor (UInt16.ofNat i) (color (UInt16.ofNat i))])
    (fun _ => rfl) (fun _ => rfl) (fun _ => rfl) n.toNat
  unfold shownPicture painting
  rw [printed_append, waited_append, shows_append, hprinted, hwaited, hshows]
  exact ⟨rfl, by simp [waited, Call.ms], rfl⟩

theorem plays_pictures (hlib : lib.Lawful n) (f : ℕ → UInt16 → Rgb) (wait k : ℕ) :
    Plays lib n ((List.range (k + 1)).flatMap fun j =>
        shownPicture n (fun i => lib.rgb (f j i)) wait) (f k) [] ((k + 1) * wait) (k + 1) := by
  obtain ⟨hprinted, hwaited, hshows⟩ := loop_counts
    (fun j => shownPicture n (fun i => lib.rgb (f j i)) wait)
    (fun _ => (shownPicture_counts _ _ _).1) (fun _ => (shownPicture_counts _ _ _).2.1)
    (fun _ => (shownPicture_counts _ _ _).2.2) (k + 1)
  refine ⟨?_, hprinted, hwaited, by rw [hshows, Nat.mul_one]⟩
  intro s
  rw [List.range_succ, List.flatMap_append, List.flatMap_singleton, run_append, shownPicture,
    run_append]
  have hquiet : ∀ c ∈ [Call.showStrip, .delay wait], c.Quiet := by simp [Call.Quiet]
  exact (pictures_painting hlib (by simp)).quiet hlib hquiet

theorem plays_fill (hlib : lib.Lawful numLights) (c : Rgb) :
    Plays lib numLights (fill (lib.rgb c)) (fun _ => c) [] 0 20 :=
  plays_painting hlib c (by simp [Call.Quiet]) rfl

theorem plays_colorWipe (hlib : lib.Lawful numLights) (c : Rgb) :
    Plays lib numLights (colorWipe numLights (lib.rgb c) 50) (fun _ => c) [] 1000 20 :=
  plays_painting hlib c (by simp [Call.Quiet]) rfl

theorem plays_rainbow (hlib : lib.Lawful n) (wait : UInt8) :
    Plays lib n (rainbow lib.color n wait) (rainbowPicture 225 255) [] (256 * wait.toNat) 256 := by
  simp only [rainbow, maskedRainbow, wheel_eq]
  exact plays_pictures hlib (rainbowPicture 225) wait.toNat 255

theorem plays_rainbowCycle (hlib : lib.Lawful n) (wait : UInt8) :
    Plays lib n (rainbowCycle lib.color n wait) (cyclePicture n 1279) []
      (1280 * wait.toNat) 1280 := by
  simp only [rainbowCycle, wheel_eq]
  exact plays_pictures hlib (cyclePicture n) wait.toNat 1279

theorem plays_loop (hlib : lib.Lawful numLights) {p : PinReads} {m : LightShow}
    (h : p.selected = some m) :
    Plays lib numLights (loop lib.color p) m.final [m.text] m.ms m.frames := by
  unfold PinReads.selected at h
  unfold loop
  split_ifs at h ⊢ <;> obtain rfl := Option.some.inj h
  · exact (plays_fill hlib ⟨225, 0, 0⟩).println "Red"
  · exact (plays_fill hlib ⟨0, 0, 225⟩).println "Blue"
  · exact (plays_fill hlib ⟨225, 225, 0⟩).println "Yellow"
  · have hred := plays_colorWipe hlib ⟨225, 0, 0⟩
    have hwhite := plays_colorWipe hlib ⟨225, 225, 225⟩
    have hblue := plays_colorWipe hlib ⟨0, 0, 225⟩
    exact (((((hred.trans hred).trans hwhite).trans hwhite).trans hblue).trans hblue).println
      "'MURICA"
  · exact ((plays_rainbow hlib 20).trans (plays_rainbowCycle hlib 20)).println "GrOoVy"

end Plays

/-! ## Whole runs -/

/-- What a run has to show for itself is decided by the shows it selected: the
picture of the last one, the names of all of them in order, and the sums of their
waits and of their frames. -/
theorem run_loop_plays {lib : NeoPixel} (hlib : lib.Lawful numLights) (passes : List PinReads) :
    lib.Pictures numLights (run lib.perform lib.begun (sketch lib.color passes))
        (((passes.filterMap PinReads.selected).getLast?.map LightShow.final).getD fun _ => .off) ∧
      printed (sketch lib.color passes) =
        (passes.filterMap PinReads.selected).map LightShow.text ∧
      waited (sketch lib.color passes) =
        ((passes.filterMap PinReads.selected).map LightShow.ms).sum ∧
      shows (sketch lib.color passes) =
        1 + ((passes.filterMap PinReads.selected).map LightShow.frames).sum := by
  induction passes using List.reverseRecOn with
  | nil =>
      refine ⟨?_, rfl, rfl, rfl⟩
      intro i hi
      exact (hlib.pixel_show _ i hi).trans (hlib.pixel_begun i hi)
  | append_singleton passes p ih =>
      obtain ⟨hpictures, hprinted, hwaited, hshows⟩ := ih
      have hsketch : sketch lib.color (passes ++ [p]) =
          sketch lib.color passes ++ loop lib.color p := by
        simp [sketch]
      rw [hsketch, List.filterMap_append, run_append, printed_append, waited_append, shows_append,
        hprinted, hwaited, hshows]
      cases hp : p.selected with
      | none =>
          rw [loop_of_not_selected hp]
          simpa [hp, printed, waited, shows] using hpictures
      | some m =>
          have hpass := plays_loop hlib hp
          refine ⟨?_, ?_, ?_, ?_⟩
          · simpa [hp] using hpass.pictures _
          · simp [hp, hpass.printed]
          · simp [hp, hpass.waited]
          · simp [hp, hpass.shows, Nat.add_assoc]

def twoShows : List PinReads :=
  [⟨false, false, false, true, true⟩, ⟨false, false, false, false, false⟩,
    ⟨false, false, true, false, false⟩]

theorem run_loop_plays_twoShows :
    bareLibrary.Pictures numLights
        (run bareLibrary.perform bareLibrary.begun (sketch bareLibrary.color twoShows))
        (fun _ => ⟨225, 225, 0⟩) ∧
      printed (sketch bareLibrary.color twoShows) = ["'MURICA", "Yellow"] ∧
      waited (sketch bareLibrary.color twoShows) = 6000 ∧
      shows (sketch bareLibrary.color twoShows) = 141 :=
  run_loop_plays (lawful_bareLibrary numLights) twoShows

end Sotabots.Led
