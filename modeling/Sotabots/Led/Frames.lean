import Sotabots.Led.Controller
/-!
# What is seen of the sketches

`Wheel` goes round the colours in steps of at most three per channel, so an
animation that moves along the wheel by one position a frame is smooth.  The
controller's `rainbow` masks the position with 225 where its model masks with
255: five bits out of eight are lost, and the picture stands almost still for
thirty-two frames and then jumps.

The stand-alone Morse sketch writes pixel 8 of a strip of eight each time, so its
letters are only pauses between frames that are all dark.
-/

namespace Sotabots.Led

open Machine

/-! ## The wheel -/

/-- No channel differs by more than one position on the wheel changes it. -/
def Close (c d : Rgb) : Prop :=
  (c.r.toNat ≤ d.r.toNat + 3 ∧ d.r.toNat ≤ c.r.toNat + 3) ∧
  (c.g.toNat ≤ d.g.toNat + 3 ∧ d.g.toNat ≤ c.g.toNat + 3) ∧
  (c.b.toNat ≤ d.b.toNat + 3 ∧ d.b.toNat ≤ c.b.toNat + 3)

instance (c d : Rgb) : Decidable (Close c d) := inferInstanceAs (Decidable (_ ∧ _ ∧ _))

theorem close_wheelColor_succ (pos : UInt8) : Close (wheelColor pos) (wheelColor (pos + 1)) := by
  have hround : ∀ p : Fin 256,
      Close (wheelColor (UInt8.ofNat p)) (wheelColor (UInt8.ofNat p + 1)) := by
    decide +kernel
  have hpos := hround ⟨pos.toNat, pos.toNat_lt⟩
  rwa [UInt8.ofNat_toNat] at hpos

/-- The masked position moves by one, forward or back, except where the bits that
the mask drops carry into those it keeps. -/
theorem close_wheelColor_masked_iff (pos : UInt8) :
    Close (wheelColor (pos &&& 225)) (wheelColor ((pos + 1) &&& 225)) ↔ pos.toNat % 32 ≠ 31 := by
  have hround : ∀ p : Fin 256,
      Close (wheelColor (UInt8.ofNat p &&& 225)) (wheelColor ((UInt8.ofNat p + 1) &&& 225)) ↔
        p.val % 32 ≠ 31 := by
    decide +kernel
  have hpos := hround ⟨pos.toNat, pos.toNat_lt⟩
  rwa [UInt8.ofNat_toNat] at hpos

/-! ## Smooth and jumping animations -/

section Rainbows

variable {lib : NeoPixel} {n : UInt16} {wait : UInt8} {s f g : lib.Strip} {j : ℕ} {i : UInt16}

def Consecutive (lib : NeoPixel) (s : lib.Strip) (calls : List Call) (j : ℕ)
    (f g : lib.Strip) : Prop :=
  (lib.frames s calls)[j]? = some f ∧ (lib.frames s calls)[j + 1]? = some g

theorem toUInt8_add_succ (x : UInt16) (j : ℕ) :
    (x + UInt16.ofNat (j + 1)).toUInt8 = (x + UInt16.ofNat j).toUInt8 + 1 := by
  rw [UInt16.ofNat_add, ← UInt16.add_assoc, UInt16.toUInt8_add]
  rfl

theorem pixels_of_consecutive {pos : ℕ → UInt16 → UInt8} (hlib : lib.Lawful n) {k : ℕ}
    (h : Consecutive lib s ((List.range k).flatMap fun j =>
      shownPicture n (fun i => wheel lib.color (pos j i)) wait.toNat) j f g) (hi : i < n) :
    lib.pixel f i = wheelColor (pos j i) ∧ lib.pixel g i = wheelColor (pos (j + 1) i) := by
  simp only [wheel_eq] at h
  obtain ⟨-, hframes⟩ := frames_loop (s := s) hlib (fun j i => wheelColor (pos j i)) wait.toNat k
  exact ⟨hframes j f h.1 i hi, hframes (j + 1) g h.2 i hi⟩

theorem toUInt8_and_255 (x : UInt16) : (x &&& 255).toUInt8 = x.toUInt8 := by
  rw [UInt16.toUInt8_and]
  exact UInt8.and_neg_one

theorem close_groovyModeRainbow (hlib : lib.Lawful n)
    (h : Consecutive lib s (groovyModeRainbow lib.color n wait) j f g) (hi : i < n) :
    Close (lib.pixel f i) (lib.pixel g i) := by
  obtain ⟨hf, hg⟩ := pixels_of_consecutive hlib h hi
  rw [hf, hg, toUInt8_and_255, toUInt8_and_255, toUInt8_add_succ]
  exact close_wheelColor_succ _

theorem close_rainbowCycle (hlib : lib.Lawful n)
    (h : Consecutive lib s (rainbowCycle lib.color n wait) j f g) (hi : i < n) :
    Close (lib.pixel f i) (lib.pixel g i) := by
  obtain ⟨hf, hg⟩ := pixels_of_consecutive hlib h hi
  rw [hf, hg, toUInt8_and_255, toUInt8_and_255, toUInt8_add_succ]
  exact close_wheelColor_succ _

/-- In the controller's `rainbow`, pixel `i` moves smoothly from frame `j` to the
next exactly when `i + j` is not the last of a block of thirty-two. -/
theorem close_rainbow_iff (hlib : lib.Lawful n)
    (h : Consecutive lib s (rainbow lib.color n wait) j f g) (hi : i < n) :
    Close (lib.pixel f i) (lib.pixel g i) ↔ (i.toNat + j) % 32 ≠ 31 := by
  obtain ⟨hf, hg⟩ := pixels_of_consecutive hlib h hi
  have hmask : ∀ x : UInt16, (x &&& 225).toUInt8 = x.toUInt8 &&& 225 :=
    fun x => UInt16.toUInt8_and x 225
  have hpos : (i + UInt16.ofNat j).toUInt8.toNat % 32 = (i.toNat + j) % 32 := by
    rw [UInt16.toNat_toUInt8, UInt16.toNat_add, UInt16.toNat_ofNat']
    omega
  rw [hf, hg, hmask, hmask, toUInt8_add_succ, close_wheelColor_masked_iff, hpos]

theorem close_rainbow_iff_first :
    ∃ f g, Consecutive bareLibrary bareLibrary.begun (rainbow bareLibrary.color numLights 20) 31
        f g ∧
      ¬ Close (bareLibrary.pixel f 0) (bareLibrary.pixel g 0) := by
  have hlib := lawful_bareLibrary numLights
  have hlength : (bareLibrary.frames bareLibrary.begun
      (rainbow bareLibrary.color numLights 20)).length = 256 := by
    simp only [rainbow, maskedRainbow, wheel_eq]
    exact (frames_loop hlib (rainbowPicture 225) 20 256).1
  have hframes : Consecutive bareLibrary bareLibrary.begun
      (rainbow bareLibrary.color numLights 20) 31 _ _ :=
    ⟨List.getElem?_eq_getElem (by omega), List.getElem?_eq_getElem (by omega)⟩
  refine ⟨_, _, hframes, ?_⟩
  rw [close_rainbow_iff hlib hframes (by decide)]
  decide

end Rainbows

/-! ## The Morse sketch -/

/-- A mark of `on` milliseconds and a gap of `off`; the colour that the source
computes first is thrown away. -/
def mark (on off : ℕ) : List Call :=
  [.setPixelColor 8 7, .delay on, .showStrip, .delay off]

def dotpartspace : List Call := mark 63 63

def dashpartspace : List Call := mark 188 63

def dotletterspace : List Call := mark 63 188

def dashletterspace : List Call := mark 188 188

def dotspace : List Call := mark 63 438

def dashspace : List Call := mark 188 438

def morseSetup : List Call := [.showStrip]

def morseLoop : List Call :=
  dotpartspace ++ dotpartspace ++ dashpartspace ++ dashpartspace ++ dashletterspace
    ++ dashpartspace ++ dotpartspace ++ dashpartspace ++ dotletterspace
    ++ dotpartspace ++ dotpartspace ++ dotpartspace ++ dotletterspace
    ++ dotpartspace ++ dashletterspace
    ++ dotpartspace ++ dotletterspace
    ++ dashpartspace ++ dotletterspace
    ++ dashpartspace ++ dashpartspace ++ dotpartspace ++ dotspace

def morseSketch (k : ℕ) : List Call := morseSetup ++ (List.range k).flatMap fun _ => morseLoop

/-- Calls that set no pixel of a strip of `n`. -/
def Call.Outside (n : UInt16) : Call → Prop
  | .setPixelColor i _ => n ≤ i
  | _ => True

instance (n : UInt16) : (c : Call) → Decidable (c.Outside n)
  | .setPixelColor i _ => inferInstanceAs (Decidable (n ≤ i))
  | .showStrip | .delay _ | .println _ => inferInstanceAs (Decidable True)

theorem frames_of_outside {lib : NeoPixel} {n : UInt16} (hlib : lib.Lawful n) {f : UInt16 → Rgb}
    {s : lib.Strip} (hs : lib.Pictures n s f) {calls : List Call}
    (h : ∀ c ∈ calls, c.Outside n) : ∀ frame ∈ lib.frames s calls, lib.Pictures n frame f := by
  induction calls generalizing s with
  | nil => simp [NeoPixel.frames]
  | cons c rest ih =>
      obtain ⟨hc, hrest⟩ := List.forall_mem_cons.mp h
      have hnext : lib.Pictures n (lib.perform s c) f := by
        intro i hi
        rw [← hs i hi]
        cases c with
        | setPixelColor j d =>
            refine hlib.pixel_set_of_ne s j d i hi ?_
            rintro rfl
            exact absurd hi (UInt16.not_lt.mpr hc)
        | showStrip => exact hlib.pixel_show s i hi
        | delay | println => rfl
      cases c with
      | showStrip => exact List.forall_mem_cons.mpr ⟨hs, ih hnext hrest⟩
      | setPixelColor | delay | println => exact ih hnext hrest

theorem outside_morseSketch (k : ℕ) : ∀ c ∈ morseSketch k, c.Outside 8 := by
  have hloop : ∀ c ∈ morseLoop, c.Outside 8 := by decide
  intro c hc
  rcases List.mem_append.mp hc with hsetup | hpass
  · rw [List.mem_singleton.mp hsetup]
    trivial
  · obtain ⟨-, -, hmem⟩ := List.mem_flatMap.mp hpass
    exact hloop c hmem

/-- However often the name is flashed, no frame has a lit pixel; `k` rounds of it
wait a little over five seconds each and show the strip twenty-three times each. -/
theorem morse_never_lit {lib : NeoPixel} (hlib : lib.Lawful 8) (k : ℕ) :
    (∀ frame ∈ lib.frames lib.begun (morseSketch k), lib.Pictures 8 frame fun _ => .off) ∧
      waited (morseSketch k) = k * 5148 ∧ shows (morseSketch k) = 1 + k * 23 := by
  refine ⟨frames_of_outside hlib (fun i hi => hlib.pixel_begun i hi) (outside_morseSketch k), ?_⟩
  have hloop : printed morseLoop = [] ∧ waited morseLoop = 5148 ∧ shows morseLoop = 23 := by
    decide
  obtain ⟨-, hwaited, hshows⟩ := loop_counts (fun _ => morseLoop) (fun _ => hloop.1)
    (fun _ => hloop.2.1) (fun _ => hloop.2.2) k
  rw [morseSketch, waited_append, shows_append, hwaited, hshows]
  exact ⟨Nat.zero_add _, rfl⟩

theorem morse_never_lit_twice :
    (∀ frame ∈ bareLibrary.frames bareLibrary.begun (morseSketch 2),
        bareLibrary.Pictures 8 frame fun _ => .off) ∧
      waited (morseSketch 2) = 10296 ∧ shows (morseSketch 2) = 47 :=
  morse_never_lit (lawful_bareLibrary 8) 2

end Sotabots.Led
