import Mathlib
import VectorMotion.CommandLine
import VectorMotion.Curve.ArcLength
import VectorMotion.Proofs.FrameRange
import VectorMotion.Proofs.Scene.Safety

/-!
# Exported frames

The frames of a document are written one after the other from a single scene, which is brought from
each frame to the next. No file shows this: each holds the drawing of the scene that has only just
been loaded and brought to its frame, so a part of the frames is written as it is among all of them.
Every frame has a name of its own, whatever its sign and however many digits it has.

The name of a file is taken from the time of the scene and not from the frame that was asked for, so
this needs scalars that hold the number of each frame. And there is one thing that ends the work
before the last frame: a path that cannot be made.
-/

namespace VectorMotion.CommandLine

open Scene

/-! ## Names -/

/-- Zeros in front of digits leave their number as it is. -/
theorem padded_number (zeros : Nat) (digits : List Char) :
    Nat.ofDigitChars 10 (List.replicate zeros '0' ++ digits) 0 = Nat.ofDigitChars 10 digits 0 := by
  induction zeros with
  | zero => rfl
  | succ zeros inductionHypothesis => exact inductionHypothesis

/-- The characters of a number in the name of a file: a sign if it is negative, and then its digits
behind as many zeros as fill the place. -/
theorem file_characters (frame : Int) : ∃ zeros,
    (frameFile frame).toList = "frame_".toList ++
      ((if frame < 0 then ['-'] else []) ++
        (List.replicate zeros '0' ++ Nat.toDigits 10 frame.natAbs) ++ ".svg".toList) := by
  refine ⟨5 - (if frame < 0 then ['-'] else []).length - (Nat.toDigits 10 frame.natAbs).length, ?_⟩
  simp only [frameFile, String.toList_append, String.toList_ofList, Nat.toList_repr,
    List.append_assoc]

/-- No digit is a sign. -/
theorem padded_unsigned (zeros n : Nat) :
    '-' ∉ List.replicate zeros '0' ++ Nat.toDigits 10 n := by
  intro member
  rcases List.mem_append.mp member with zero | digit
  · exact absurd (List.eq_of_mem_replicate zero) (by decide)
  · exact absurd (Nat.isDigit_of_mem_toDigits (by decide) (by decide) digit) (by decide)

/-- Frames have different names. The sign can be told from the digits, and the digits are read back
as the number that they are of. -/
theorem file_injective : Function.Injective frameFile := by
  intro first second same
  obtain ⟨zeros, firstText⟩ := file_characters first
  obtain ⟨others, secondText⟩ := file_characters second
  have texts := congrArg String.toList same
  rw [firstText, secondText] at texts
  have numbers := List.append_cancel_right (List.append_cancel_left texts)
  have value (zeros frame) : Nat.ofDigitChars 10
      (List.replicate zeros '0' ++ Nat.toDigits 10 frame) 0 = frame := by
    rw [padded_number]
    exact Nat.ofDigitChars_toDigits (by decide) (by decide)
  have size (equal : List.replicate zeros '0' ++ Nat.toDigits 10 first.natAbs =
      List.replicate others '0' ++ Nat.toDigits 10 second.natAbs) :
      first.natAbs = second.natAbs := by
    have read := congrArg (fun digits => Nat.ofDigitChars 10 digits 0) equal
    simpa only [value] using read
  by_cases firstNegative : first < 0 <;> by_cases secondNegative : second < 0 <;>
    simp only [firstNegative, secondNegative, if_true, if_false, List.nil_append,
      List.cons_append, List.cons.injEq, true_and] at numbers
  · have := size numbers
    omega
  · exact absurd (numbers ▸ List.mem_cons_self) (padded_unsigned others second.natAbs)
  · exact absurd (numbers ▸ List.mem_cons_self) (padded_unsigned zeros first.natAbs)
  · have := size numbers
    omega

/-! ## Drawings -/

variable {S P : Type} [Scalar S] [Scalar P] [Widen S P] [Measure P]

/-- The document of a scene stays what it is when the scene is brought to frames. -/
theorem played_info (scene : Scene S P) (earlier : List S) :
    (earlier.foldl Scene.update scene).info = scene.info := by
  induction earlier generalizing scene with
  | nil => rfl
  | cons first rest inductionHypothesis => exact inductionHypothesis _

/-- What a scene is at a frame does not depend on the frames that it has been brought to before. -/
theorem played_update (scene : Scene S P) (earlier : List S) (frame : S) :
    (earlier.foldl Scene.update scene).update frame = scene.update frame := by
  induction earlier generalizing scene with
  | nil => rfl
  | cons first rest inductionHypothesis =>
    rw [List.foldl_cons, inductionHypothesis, frame_forgotten]

variable [Written S] [Written P]

/-- A frame number that scalars hold: it comes back as it was. -/
def Held (S : Type) [Scalar S] (frame : Int) : Prop :=
  Scalar.truncateInto FrameRange.least FrameRange.greatest (Scalar.ofInt frame : S) = frame

instance (frame : Int) : Decidable (Held S frame) := inferInstanceAs (Decidable (_ = _))

/-- The file of a frame, drawn from a scene that is brought to this frame alone. -/
def frameDrawing (scene : Scene S P) (frame : Int) : String × String :=
  (frameFile frame, drawing (scene.update (Scalar.ofInt frame)))

/-- A frame at which every path of a scene can be made. -/
def drawable (scene : Scene S P) (frame : Int) : Bool :=
  !(scene.update (Scalar.ofInt frame)).isUnbounded

/-- The frames before the first that cannot be drawn are written, each as if there were no other,
and there is no error if these are all. -/
theorem frames_rendered (scene : Scene S P) (frames : List Int)
    (held : ∀ frame ∈ frames, Held S frame) :
    renderFrames scene frames =
      { status := if frames.all (drawable scene) then 0 else 1
        files := (frames.takeWhile (drawable scene)).map (frameDrawing scene) } := by
  induction frames generalizing scene with
  | nil => rfl
  | cons frame rest inductionHypothesis =>
    obtain ⟨here, others⟩ := List.forall_mem_cons.1 held
    -- The loop goes on with the scene at this frame, which gives the same files as the first one.
    let reached := scene.update (Scalar.ofInt frame)
    have sameFrames : drawable reached = drawable scene := by
      funext later
      rw [drawable, drawable, frame_forgotten]
    have sameDrawings : frameDrawing reached = frameDrawing scene := by
      funext later
      rw [frameDrawing, frameDrawing, frame_forgotten]
    have file : sceneFile reached = frameDrawing scene frame :=
      congrArg (fun name => (frameFile name, drawing reached)) here
    rw [renderFrames]
    change (if reached.isUnbounded then _ else _) = _
    by_cases unbounded : reached.isUnbounded = true
    · have stopped : drawable scene frame = false := by simp [drawable, reached, unbounded]
      simp [unbounded, stopped, Outcome.failure]
    · have drawn : drawable scene frame = true := by simpa [drawable, reached] using unbounded
      rw [if_neg unbounded, inductionHypothesis reached others, sameFrames, sameDrawings, file]
      simp [drawn]

/-- To render a part of a document is to render its frames from the scene as it was loaded, whatever
has been done with it. -/
theorem render_performed (scene : Scene S P) (earlier : List S) (file directory : String)
    {first last : Option Int} {range : FrameRange}
    (accepted : (FrameRange.ofInfo scene.info).clip first last = .ok range)
    (held : ∀ frame ∈ range.frames, Held S frame) :
    (Command.render file directory first last).perform (earlier.foldl Scene.update scene) =
      { status := if range.frames.all (drawable scene) then 0 else 1
        files := (range.frames.takeWhile (drawable scene)).map (frameDrawing scene) } := by
  have sameFrames : drawable (earlier.foldl Scene.update scene) = drawable scene := by
    funext frame
    rw [drawable, drawable, played_update]
  have sameDrawings : frameDrawing (earlier.foldl Scene.update scene) = frameDrawing scene := by
    funext frame
    rw [frameDrawing, frameDrawing, played_update]
  rw [Command.perform, played_info, accepted, ← sameFrames, ← sameDrawings]
  exact frames_rendered _ _ held

/-- Each frame of a range that is asked for has a file of its own name, and in it the drawing of the
scene that has only just been loaded and brought to this frame alone. The files are written in order
up to the first frame of which a path cannot be made. If there is none, there is a file for each
frame and no error, and a part of the range is written as it is among the whole; if there is one,
files are missing and the work ends with an error. -/
theorem frames_exported (settings : Trim.Settings) (document : Document S) (earlier : List S)
    (file directory : String) (first last : Option Int) (range : FrameRange)
    (accepted :
      (FrameRange.ofInfo (Scene.Info.ofDocument document)).clip first last = .ok range)
    (held : ∀ frame ∈ range.frames, Held S frame) :
    let loaded : Scene S P := Scene.ofDocument settings document
    let render first last :=
      (Command.render file directory first last).perform (earlier.foldl Scene.update loaded)
    let whole := ∀ frame ∈ range.frames, drawable loaded frame = true
    (render first last).files =
        (range.frames.takeWhile (drawable loaded)).map (frameDrawing loaded) ∧
      ((render first last).files.map Prod.fst).Nodup ∧
      ((render first last).status = 0 ↔ whole) ∧
      (((render first last).files.length : Int) = range.last - range.first + 1 ↔ whole) ∧
      ∀ (from? to? : Option Int) (part : FrameRange),
        (FrameRange.ofInfo (Scene.Info.ofDocument document)).clip from? to? = .ok part →
        range.first ≤ part.first → part.last ≤ range.last → whole →
        (render from? to?).files =
          (render first last).files.filter (·.1 ∈ part.frames.map frameFile) := by
  intro loaded render whole
  have performed : render first last = _ :=
    render_performed loaded earlier file directory accepted held
  have files : (render first last).files =
      (range.frames.takeWhile (drawable loaded)).map (frameDrawing loaded) :=
    congrArg Outcome.files performed
  have allWritten : whole → range.frames.takeWhile (drawable loaded) = range.frames :=
    List.takeWhile_eq_self_iff.mpr
  refine ⟨files, ?_, ?_, ?_, ?_⟩
  · have taken : (range.frames.takeWhile (drawable loaded)).Nodup :=
      range.frames_sorted.nodup.sublist (List.takeWhile_sublist _)
    rw [files, List.map_map]
    exact taken.map file_injective
  · rw [performed]
    simp [whole]
  · rw [files, ← range.frames_length (FrameRange.clip_within accepted).2.1, List.length_map,
      Int.natCast_inj]
    constructor
    · intro length
      have complete := (List.takeWhile_sublist (drawable loaded)).eq_of_length length
      exact List.takeWhile_eq_self_iff.mp complete
    · exact fun drawn => congrArg List.length (allWritten drawn)
  · intro from? to? part asked started ended drawn
    have inside : ∀ frame ∈ part.frames, frame ∈ range.frames := by
      intro frame member
      rw [FrameRange.mem_frames] at member ⊢
      exact ⟨started.trans member.1, member.2.trans ended⟩
    have partFiles : (render from? to?).files =
        (part.frames.takeWhile (drawable loaded)).map (frameDrawing loaded) :=
      congrArg Outcome.files (render_performed loaded earlier file directory asked
        fun frame member => held frame (inside frame member))
    have partWritten : part.frames.takeWhile (drawable loaded) = part.frames :=
      List.takeWhile_eq_self_iff.mpr fun frame member => drawn frame (inside frame member)
    have named : ((fun entry : String × String =>
          decide (entry.1 ∈ part.frames.map frameFile)) ∘ frameDrawing loaded) =
        fun frame => decide (frame ∈ part.frames) := by
      funext frame
      simp [frameDrawing, file_injective.eq_iff]
    rw [partFiles, partWritten, files, allWritten drawn, List.filter_map, named,
      FrameRange.frames_part range part started ended]

/-- An exact number is written as the nearest one of double precision. -/
noncomputable instance : Written ℝ := ⟨fun x => Decimal.ofDouble (Scalar.toDouble x)⟩

/-- Three frames around zero, and nothing on them. -/
noncomputable def threeFrames : Document ℝ := { inPoint := -1, outPoint := 2, frameRate := 30 }

/-- Three frames are written, and of the last two the same files as of all. -/
theorem three_frames_exported :
    let loaded : Scene ℝ ℝ := Scene.ofDocument {} threeFrames
    let all := (Command.render "in" "out" none none).perform loaded
    all.status = 0 ∧ all.files.map Prod.fst = ["frame_-0001.svg", "frame_00000.svg",
      "frame_00001.svg"] ∧
      ((Command.render "in" "out" (some 0) none).perform loaded).files =
        all.files.filter (·.1 ∈ ["frame_00000.svg", "frame_00001.svg"]) := by
  intro loaded all
  have spans : (Scene.Info.ofDocument threeFrames).Spans := by
    constructor <;>
      norm_num [Scene.Info.ofDocument, threeFrames, FrameRange.least, FrameRange.greatest]
  have range : FrameRange.ofInfo (Scene.Info.ofDocument threeFrames) = ⟨-1, 1⟩ := by
    rw [FrameRange.ofInfo_exact spans]
    norm_num [Scene.Info.ofDocument, threeFrames]
  have held : ∀ frame ∈ (⟨-1, 1⟩ : FrameRange).frames, Held ℝ frame := by
    intro frame member
    obtain ⟨started, ended⟩ := (FrameRange.mem_frames _ _).mp member
    rw [Held, Exact.whole]
    apply Exact.truncated_whole
    · exact le_trans (by decide) started
    · exact ended.trans (by decide)
  have drawn : ∀ frame ∈ (⟨-1, 1⟩ : FrameRange).frames, drawable loaded frame = true := by
    intro frame _
    have reachable : Reachable {} threeFrames (loaded.update (Scalar.ofInt frame)) :=
      Reachable.loaded.updated _ _
    rw [drawable, Bool.not_eq_true', ← Bool.not_eq_true]
    rw [Scene.isUnbounded, Tree.unbounded_iff _ reachable.same_table.alone]
    rintro ⟨node, member, unbounded⟩
    obtain rfl : node = (loaded.update (Scalar.ofInt frame)).tree.root :=
      List.mem_singleton.mp member
    cases unbounded
  obtain ⟨files, -, status, -, parts⟩ :=
    frames_exported (P := ℝ) {} threeFrames [] "in" "out" none none ⟨-1, 1⟩
      (by rw [range]; rfl) held
  refine ⟨status.mpr drawn, ?_, ?_⟩
  · have names : all.files.map Prod.fst = (⟨-1, 1⟩ : FrameRange).frames.map frameFile := by
      rw [show all.files = _ from files, List.takeWhile_eq_self_iff.mpr drawn, List.map_map]
      rfl
    rw [names]
    decide +kernel
  · exact parts (some 0) none ⟨0, 1⟩ (by rw [range]; rfl) (by decide) (by decide) drawn

/-- Of the rectangle that overshoots there is no file at the frame where no path of it can be made,
though the frame is one of the document and is asked for alone. -/
theorem overshooting_frame_missing :
    let scene : Scene Float Float := Scene.ofDocument {} (documentOf overshootingText)
    (scene.info.inPoint == 0 && scene.info.outPoint == 60) = true ∧
      5 ∈ (FrameRange.ofInfo scene.info).frames ∧
      (FrameRange.ofInfo scene.info).clip (some 5) (some 5) = .ok ⟨5, 5⟩ ∧
      renderFrames scene (FrameRange.mk 5 5).frames = .failure := by
  intro scene
  have range : FrameRange.ofInfo scene.info = ⟨0, 59⟩ := by decide +kernel
  have reachable : Reachable {} (documentOf overshootingText) (scene.update (Scalar.ofInt 5)) :=
    Reachable.loaded.updated _ _
  have listed :
      (scene.update (Scalar.ofInt 5)).tree.root.listing.any Node.isUnbounded = true := by
    decide +kernel
  have stopped : (scene.update (Scalar.ofInt 5)).isUnbounded = true :=
    (Tree.unbounded_iff _ reachable.same_table.alone).mpr (List.any_eq_true.mp listed)
  refine ⟨by decide +kernel, by rw [range]; decide, by rw [range]; rfl, ?_⟩
  change (if (scene.update (Scalar.ofInt 5)).isUnbounded then Outcome.failure else _) = _
  rw [if_pos stopped]

end VectorMotion.CommandLine
