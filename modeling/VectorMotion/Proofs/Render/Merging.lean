import VectorMotion.Proofs.Trim.Joining
import VectorMotion.Proofs.Render.Ledger

/-!
# Merged shapes under a trim

Shapes of one look that follow each other wait for their trim as one outline. In exact arithmetic
that makes no difference to what is left of them, unless the window runs past the end: the window
leaves of a merged outline what it leaves of its shapes, one after the other.
-/

namespace VectorMotion.Render

open Trim (lower upper)

variable {S : Type} [Scalar S]

/-- A waiting outline that shapes have been merged into: theirs one after the other, in a look that
stands for each of theirs. -/
structure Queued.Merges (shown : Queued S ℝ) (shapes : List (Queued S ℝ)) : Prop where
  path : shown.path = (shapes.map Queued.path).flatten
  look : ∀ shape ∈ shapes, shown.Alike shape

/-- The path of a merged shape is the paths that have been merged, one behind the other. -/
theorem merged_paths {own : List (Queued S ℝ)} {groups : List (List (Queued S ℝ))}
    (merges : List.Forall₂ Queued.Merges own groups) :
    own.map Queued.path = (groups.map (List.map Queued.path)).map List.flatten := by
  induction merges with
  | nil => rfl
  | cons first _ inductionHypothesis => simp [first.path, inductionHypothesis]

/-- Shapes that come behind a mark are merged among themselves. -/
theorem enqueued_merges (saved shapes : List (Queued S ℝ)) :
    ∃ groups : List (List (Queued S ℝ)), groups.flatten = shapes ∧
      List.Forall₂ Queued.Merges
        ((shapes.foldl (Queued.enqueue saved.length) saved).drop saved.length) groups := by
  -- A ledger is kept in which nothing but the shapes matters.
  let noted (shape : Queued S ℝ) : Deposit S ℝ := ⟨0, 0, none, shape⟩
  let waiting : List (Pile S ℝ) := saved.map fun shape => ⟨shape, [noted shape]⟩
  let piles := (shapes.map noted).foldl (Pile.put saved.length) waiting
  have marked : waiting.length = saved.length := List.length_map _
  have shown : (piles.drop saved.length).map Pile.shown =
      (shapes.foldl (Queued.enqueue saved.length) saved).drop saved.length := by
    have all := Pile.put_all_shown saved.length waiting (shapes.map noted)
    simp only [waiting, noted, List.map_map, Function.comp_def, List.map_id'] at all
    rw [List.map_drop, all]
  have made : (piles.drop saved.length).flatMap Pile.made = shapes.map noted := by
    have behind := Pile.put_all_behind saved.length waiting (shapes.map noted) marked.ge
    rwa [List.drop_of_length_le marked.le] at behind
  have sound : ∀ pile ∈ piles, pile.Sound := by
    refine Pile.put_all_sound _ _ _ fun pile member => ?_
    obtain ⟨shape, -, rfl⟩ := List.mem_map.mp member
    exact ⟨by simp [noted], by simp [noted, Queued.Alike]⟩
  refine ⟨(piles.drop saved.length).map fun pile => pile.made.map Deposit.queued, ?_, ?_⟩
  · rw [← List.flatMap_def, ← List.map_flatMap, made, List.map_map]
    exact List.map_id _
  · rw [← shown, List.forall₂_map_left_iff, List.forall₂_map_right_iff, List.forall₂_same]
    intro pile member
    obtain ⟨path, look⟩ := sound pile (List.mem_of_mem_drop member)
    exact ⟨by rw [path, List.map_map, List.flatMap_def]; rfl, by simpa using look⟩

/-- Trimming outlines together is trimming the one outline that they make, if every one of them
begins with a move and the window does not run past the end. So it does not matter that shapes that
wait for a trim are merged: what is left of the outline of several shapes is what would be left of
each of them, one after the other. -/
theorem trimmed_merged [Measure ℝ] (outlines : List (Path ℝ))
    (starts : ∀ outline ∈ outlines, outline.startsWithMove = true) (start finish offset : ℝ)
    (unbroken : Int.fract (lower start finish + offset) +
      (upper start finish - lower start finish) ≤ 1) :
    (Trim.paths outlines start finish offset).flatten =
        Trim.path outlines.flatten start finish offset ∧
      ∀ saved shapes : List (Queued S ℝ), shapes.map Queued.path = outlines →
        let own := (shapes.foldl (Queued.enqueue saved.length) saved).drop saved.length
        ∃ (groups : List (List (Queued S ℝ))) (cuts : List (List (Path ℝ))),
          groups.flatten = shapes ∧ List.Forall₂ Queued.Merges own groups ∧
          cuts.map List.length = groups.map List.length ∧
          cuts.flatten = Trim.paths outlines start finish offset ∧
          cuts.map List.flatten = Trim.paths (own.map Queued.path) start finish offset := by
  refine ⟨Trim.joined_path outlines starts start finish offset unbroken, ?_⟩
  rintro saved shapes rfl own
  obtain ⟨groups, rfl, merges⟩ := enqueued_merges saved shapes
  have groupsStart : ∀ group ∈ groups.map (List.map Queued.path), ∀ outline ∈ group,
      outline.startsWithMove = true := by
    intro group member outline inside
    refine starts outline ?_
    rw [List.map_flatten]
    exact List.mem_flatten.mpr ⟨group, member, inside⟩
  obtain ⟨cuts, lengths, all, each⟩ := Trim.grouped_paths (groups.map (List.map Queued.path))
    groupsStart start finish offset unbroken
  refine ⟨groups, cuts, rfl, merges, ?_, ?_, ?_⟩
  · rw [lengths, List.map_map]
    exact List.map_congr_left fun group _ => List.length_map _
  · rw [all, List.map_flatten]
  · rw [each, merged_paths merges]

/-- Two lines of one look, of which the first half is left. -/
theorem trimmed_merged_lines :
    let first : Path ℝ := [.move ⟨0, 0⟩, .line ⟨10, 0⟩]
    let second : Path ℝ := [.move ⟨0, 5⟩, .line ⟨10, 5⟩]
    let shapes : List (Queued ℝ ℝ) := [⟨first, 1, [], none⟩, ⟨second, 1, [], none⟩]
    let own := (shapes.foldl (Queued.enqueue 0) []).drop 0
    Int.fract (lower 0 (1 / 2) + 0) + (upper 0 (1 / 2) - lower 0 (1 / 2)) ≤ 1 ∧
      (Trim.paths [first, second] 0 (1 / 2) 0).flatten =
        Trim.path (first ++ second) 0 (1 / 2) 0 ∧
      ∃ (groups : List (List (Queued ℝ ℝ))) (cuts : List (List (Path ℝ))),
        groups.flatten = shapes ∧ List.Forall₂ Queued.Merges own groups ∧
        cuts.map List.length = groups.map List.length ∧
        cuts.flatten = Trim.paths [first, second] 0 (1 / 2) 0 ∧
        cuts.map List.flatten = Trim.paths (own.map Queued.path) 0 (1 / 2) 0 := by
  intro first second shapes own
  have half : Trim.fraction (1 / 2) = 1 / 2 := by norm_num [Trim.fraction]
  have none : Trim.fraction 0 = 0 := by norm_num [Trim.fraction]
  have unbroken : Int.fract (lower 0 (1 / 2) + 0) + (upper 0 (1 / 2) - lower 0 (1 / 2)) ≤ 1 := by
    rw [lower, upper, half, none]
    norm_num
  obtain ⟨joined, waiting⟩ := trimmed_merged (S := ℝ) [first, second]
    (by simp [first, second, Path.startsWithMove]) 0 (1 / 2) 0 unbroken
  refine ⟨unbroken, ?_, waiting [] shapes rfl⟩
  simpa using joined

end VectorMotion.Render
