import Sotabots.Machine.Trace
import Mathlib.Algebra.GroupWithZero.Nat
import Mathlib.Logic.Function.Basic
/-!
# LED strips

An Arduino sketch drives its strip through the NeoPixel library, which is not part
of the sketches.  Here the library is a parameter: a sketch is the list of calls it
makes, and what these calls do to a strip is up to a `NeoPixel`.  The results about
pictures ask for `NeoPixel.Lawful`, which says what the sketches rely on.  What
`show` costs in time is not asked for; the calls of it are counted.
-/

namespace Sotabots.Led

open Machine

@[ext] structure Rgb where
  r : UInt8
  g : UInt8
  b : UInt8
  deriving DecidableEq, Repr

def Rgb.off : Rgb := ⟨0, 0, 0⟩

inductive Call
  | setPixelColor (i : UInt16) (c : UInt32)
  | showStrip
  | delay (ms : ℕ)
  | println (text : String)
  deriving DecidableEq

/-- The library: how it packs a colour, a strip as `begin` leaves it, the two calls
on a strip, and the colour a strip has for a pixel when it is shown. -/
structure NeoPixel where
  Strip : Type
  color : UInt8 → UInt8 → UInt8 → UInt32
  begun : Strip
  setPixelColor : Strip → UInt16 → UInt32 → Strip
  showStrip : Strip → Strip
  pixel : Strip → UInt16 → Rgb

namespace NeoPixel

variable (lib : NeoPixel)

def rgb (c : Rgb) : UInt32 := lib.color c.r c.g c.b

def perform (s : lib.Strip) : Call → lib.Strip
  | .setPixelColor i c => lib.setPixelColor s i c
  | .showStrip => lib.showStrip s
  | .delay _ | .println _ => s

/-- The strip as it is at each `show`. -/
def frames (s : lib.Strip) : List Call → List lib.Strip
  | [] => []
  | .showStrip :: rest => s :: frames (lib.perform s .showStrip) rest
  | c :: rest => frames (lib.perform s c) rest

/-- What the sketches rely on for a strip of `n` pixels. -/
structure Lawful (n : UInt16) : Prop where
  pixel_begun : ∀ i < n, lib.pixel lib.begun i = .off
  pixel_set_self : ∀ s, ∀ i < n, ∀ c, lib.pixel (lib.setPixelColor s i (lib.rgb c)) i = c
  /-- Also for an index past the end, which changes no pixel. -/
  pixel_set_of_ne : ∀ s i c, ∀ j < n, i ≠ j →
    lib.pixel (lib.setPixelColor s i c) j = lib.pixel s j
  pixel_show : ∀ s, ∀ i < n, lib.pixel (lib.showStrip s) i = lib.pixel s i

end NeoPixel

/-- The plainest library: a strip is a memory of colours, a colour three bytes of a
word. -/
def bareLibrary : NeoPixel where
  Strip := UInt16 → Rgb
  color r g b := UInt32.ofNat (r.toNat * 65536 + g.toNat * 256 + b.toNat)
  begun _ := .off
  setPixelColor s i c := Function.update s i
    ⟨UInt8.ofNat (c.toNat / 65536), UInt8.ofNat (c.toNat / 256), UInt8.ofNat c.toNat⟩
  showStrip s := s
  pixel s i := s i

theorem lawful_bareLibrary (n : UInt16) : bareLibrary.Lawful n where
  pixel_begun _ _ := rfl
  pixel_set_self := by
    rintro s i - ⟨r, g, b⟩
    have hr := r.toNat_lt
    have hg := g.toNat_lt
    have hb := b.toNat_lt
    have hword : (UInt32.ofNat (r.toNat * 65536 + g.toNat * 256 + b.toNat)).toNat =
        r.toNat * 65536 + g.toNat * 256 + b.toNat := by
      rw [UInt32.toNat_ofNat']
      exact Nat.mod_eq_of_lt (by omega)
    refine (Function.update_self i _ s).trans ?_
    simp only [bareLibrary, NeoPixel.rgb, hword]
    ext1 <;> apply UInt8.toNat_inj.mp <;> simp only [UInt8.toNat_ofNat'] <;> omega
  pixel_set_of_ne _ _ _ _ _ hne := Function.update_of_ne hne.symm _ _
  pixel_show _ _ _ := rfl

/-! ## What a list of calls amounts to -/

def Call.line : Call → Option String
  | .println text => some text
  | _ => none

def Call.ms : Call → ℕ
  | .delay ms => ms
  | _ => 0

def printed (calls : List Call) : List String := calls.filterMap Call.line

def waited (calls : List Call) : ℕ := (calls.map Call.ms).sum

def shows (calls : List Call) : ℕ := calls.countP (· = .showStrip)

@[simp] theorem printed_append (first second : List Call) :
    printed (first ++ second) = printed first ++ printed second :=
  List.filterMap_append

@[simp] theorem waited_append (first second : List Call) :
    waited (first ++ second) = waited first + waited second := by
  rw [waited, List.map_append, List.sum_append]
  rfl

@[simp] theorem shows_append (first second : List Call) :
    shows (first ++ second) = shows first + shows second :=
  List.countP_append

theorem loop_counts (body : ℕ → List Call) {ms m : ℕ} (hprinted : ∀ j, printed (body j) = [])
    (hwaited : ∀ j, waited (body j) = ms) (hshows : ∀ j, shows (body j) = m) (k : ℕ) :
    printed ((List.range k).flatMap body) = [] ∧ waited ((List.range k).flatMap body) = k * ms ∧
      shows ((List.range k).flatMap body) = k * m := by
  induction k with
  | zero => simp [printed, waited, shows]
  | succ k ih =>
      obtain ⟨hline, hms, hm⟩ := ih
      rw [List.range_succ, List.flatMap_append, List.flatMap_singleton, printed_append,
        waited_append, shows_append, hline, hms, hm, hprinted, hwaited, hshows, Nat.succ_mul,
        Nat.succ_mul]
      exact ⟨rfl, rfl, rfl⟩

/-! ## Pictures -/

section Pictures

variable {lib : NeoPixel} {n : UInt16} {s : lib.Strip}

def NeoPixel.Pictures (lib : NeoPixel) (n : UInt16) (s : lib.Strip) (f : UInt16 → Rgb) : Prop :=
  ∀ i < n, lib.pixel s i = f i

def Call.Quiet : Call → Prop
  | .setPixelColor _ _ => False
  | _ => True

theorem pixel_run_quiet (hlib : lib.Lawful n) {calls : List Call} (h : ∀ c ∈ calls, c.Quiet)
    {i : UInt16} (hi : i < n) : lib.pixel (run lib.perform s calls) i = lib.pixel s i := by
  induction calls generalizing s with
  | nil => rfl
  | cons c rest ih =>
      obtain ⟨hc, hrest⟩ := List.forall_mem_cons.mp h
      rw [run_cons, ih hrest]
      cases c with
      | setPixelColor j d => exact absurd hc id
      | showStrip => exact hlib.pixel_show s i hi
      | delay | println => rfl

/-- The loop that sets the pixels one after another, with some quiet calls after
each. -/
def painting (k : ℕ) (color : UInt16 → UInt32) (after : List Call) : List Call :=
  (List.range k).flatMap fun i => .setPixelColor (UInt16.ofNat i) (color (UInt16.ofNat i)) :: after

theorem painting_succ (k : ℕ) (color : UInt16 → UInt32) (after : List Call) :
    painting (k + 1) color after = painting k color after ++
      .setPixelColor (UInt16.ofNat k) (color (UInt16.ofNat k)) :: after := by
  simp [painting, List.range_succ]

theorem pixel_painting (hlib : lib.Lawful n) {f : UInt16 → Rgb} {after : List Call}
    (hafter : ∀ c ∈ after, c.Quiet) {k : ℕ} (hk : k ≤ n.toNat) {i : UInt16} (hi : i < n) :
    lib.pixel (run lib.perform s (painting k (fun i => lib.rgb (f i)) after)) i =
      if i.toNat < k then f i else lib.pixel s i := by
  induction k with
  | zero => simp [painting]
  | succ k ih =>
      have hn := n.toNat_lt
      have hindex : (UInt16.ofNat k).toNat = k := by
        rw [UInt16.toNat_ofNat']
        exact Nat.mod_eq_of_lt (by omega)
      rw [painting_succ, run_append, run_cons, pixel_run_quiet hlib hafter hi, NeoPixel.perform]
      by_cases heq : UInt16.ofNat k = i
      · rw [heq, hlib.pixel_set_self _ i hi, if_pos]
        rw [← heq, hindex]
        exact Nat.lt_succ_self k
      · have hne : i.toNat ≠ k := by
          intro h
          apply heq
          rw [← h, UInt16.ofNat_toNat]
        rw [hlib.pixel_set_of_ne _ _ _ i hi heq, ih (by omega)]
        by_cases hlt : i.toNat < k
        · rw [if_pos hlt, if_pos (by omega)]
        · rw [if_neg hlt, if_neg (by omega)]

theorem pictures_painting (hlib : lib.Lawful n) {f : UInt16 → Rgb} {after : List Call}
    (hafter : ∀ c ∈ after, c.Quiet) :
    lib.Pictures n (run lib.perform s (painting n.toNat (fun i => lib.rgb (f i)) after)) f := by
  intro i hi
  rw [pixel_painting hlib hafter (Nat.le_refl _) hi, if_pos (UInt16.lt_iff_toNat_lt.mp hi)]

theorem NeoPixel.Pictures.quiet (hlib : lib.Lawful n) {f : UInt16 → Rgb}
    (h : lib.Pictures n s f) {calls : List Call} (hquiet : ∀ c ∈ calls, c.Quiet) :
    lib.Pictures n (run lib.perform s calls) f := by
  intro i hi
  rw [pixel_run_quiet hlib hquiet hi]
  exact h i hi

/-! ## Frames -/

theorem frames_append (first second : List Call) :
    lib.frames s (first ++ second) =
      lib.frames s first ++ lib.frames (run lib.perform s first) second := by
  induction first generalizing s with
  | nil => rfl
  | cons c rest ih => cases c <;> simp [NeoPixel.frames, ih]

theorem frames_painting (k : ℕ) (color : UInt16 → UInt32) :
    lib.frames s (painting k color []) = [] := by
  induction k with
  | zero => rfl
  | succ k ih =>
      rw [painting_succ, frames_append, ih]
      rfl

/-- A pass that paints a whole picture, shows it and waits. -/
def shownPicture (n : UInt16) (color : UInt16 → UInt32) (wait : ℕ) : List Call :=
  painting n.toNat color [] ++ [.showStrip, .delay wait]

theorem frames_shownPicture (hlib : lib.Lawful n) (f : UInt16 → Rgb) (wait : ℕ) :
    ∃ frame, lib.frames s (shownPicture n (fun i => lib.rgb (f i)) wait) = [frame] ∧
      lib.Pictures n frame f := by
  refine ⟨run lib.perform s (painting n.toNat (fun i => lib.rgb (f i)) []), ?_,
    pictures_painting hlib (by simp)⟩
  rw [shownPicture, frames_append, frames_painting]
  rfl

theorem frames_loop (hlib : lib.Lawful n) (f : ℕ → UInt16 → Rgb) (wait k : ℕ) :
    (lib.frames s ((List.range k).flatMap fun j =>
        shownPicture n (fun i => lib.rgb (f j i)) wait)).length = k ∧
      ∀ (j : ℕ) (frame : lib.Strip), (lib.frames s ((List.range k).flatMap fun j =>
        shownPicture n (fun i => lib.rgb (f j i)) wait))[j]? = some frame →
          lib.Pictures n frame (f j) := by
  induction k with
  | zero => simp [NeoPixel.frames]
  | succ k ih =>
      obtain ⟨hlength, hpictures⟩ := ih
      rw [List.range_succ, List.flatMap_append, List.flatMap_singleton, frames_append]
      obtain ⟨last, hlast, hpicture⟩ :=
        frames_shownPicture (s := run lib.perform s _) hlib (f k) wait
      rw [hlast]
      refine ⟨by rw [List.length_append, hlength, List.length_singleton], ?_⟩
      intro j frame hframe
      rw [List.getElem?_append] at hframe
      split_ifs at hframe with hlt
      · exact hpictures j frame hframe
      · rw [List.getElem?_singleton] at hframe
        split_ifs at hframe with hzero
        obtain rfl := Option.some.inj hframe
        obtain rfl : j = k := by omega
        exact hpicture

end Pictures

end Sotabots.Led
